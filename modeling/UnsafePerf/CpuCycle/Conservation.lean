import UnsafePerf.CpuCycle.System

/-!
# Conservation of cycles

Between two calls of a thread that holds a slot, the four cycle counters of the slot add up to the
time from the thread's start to the last change of context that the code accepted. The invariant
behind it, `Kept`, also says that the last accepted reading is the one in the top context: that is
where the next charge begins.

The `ledger` of a list of calls is computed without the registry, from the depth alone: a push is
accepted below the capacity, a pop above depth one, and a change of state always.
-/

open Concurrency

namespace UnsafePerf.CpuCycle

/-! ## The ledger -/

/-- The cycles charged to a slot, over all states of execution. -/
def ThreadStats.cycles (st : ThreadStats) : ℕ :=
  (st.counters .normalCycles).toNat + (st.counters .unsafeCycles).toNat
    + (st.counters .externalSafeCycles).toNat + (st.counters .externalUnsafeCycles).toNat

/-- The readings a call takes of a thread that has a slot. -/
def Call.readings (inp : Inputs) : Call → List UInt64
  | .init => []
  | .hook _ | .cleanup => [inp.tsc]

/-- The readings the calls of a thread take, from the initialization on. -/
def readings : List (Call × Inputs) → List UInt64
  | [] => []
  | (call, inp) :: calls =>
    inp.initTsc :: (call.readings inp ++ calls.flatMap fun e ↦ e.1.readings e.2)

-- Otherwise the instance for a finite type is found, which runs through all of `UInt64`.
instance (calls : List (Call × Inputs)) : Decidable (∀ r ∈ readings calls, 0 < r) :=
  List.decidableBAll ..

/-- The depth of the stack and the last accepted reading after a call. -/
def Call.accept (inp : Inputs) : Call → ℕ × UInt64 → ℕ × UInt64
  | .hook .startMeasurement, (depth, _) => (depth, inp.tsc)
  | .hook .endMeasurement, (depth, _) => (depth, inp.tsc)
  | .hook .callStart, (depth, last) =>
    if depth < maxContextDepth then (depth + 1, inp.tsc) else (depth, last)
  | .hook .callEnd, (depth, last) => if 1 < depth then (depth - 1, inp.tsc) else (depth, last)
  | .init, p | .cleanup, p => p

/-- The depth of the stack and the last accepted reading after the calls of a thread. -/
def ledger : List (Call × Inputs) → ℕ × UInt64
  | [] => (0, 0)
  | (call, inp) :: calls =>
    calls.foldl (fun p e ↦ e.1.accept e.2 p) (call.accept inp (1, inp.initTsc))

section Ledger

variable {calls : List (Call × Inputs)}

theorem readings_append (hcalls : calls ≠ []) (call : Call × Inputs) :
    readings (calls ++ [call]) = readings calls ++ call.1.readings call.2 := by
  cases calls with
  | nil => exact absurd rfl hcalls
  | cons first calls => simp [readings]

theorem readings_extend {pre : List (Call × Inputs)} (hpre : pre ≠ []) (h : pre <+: calls) :
    readings pre <+: readings calls := by
  obtain ⟨post, rfl⟩ := h
  cases pre with
  | nil => exact absurd rfl hpre
  | cons first pre => simp [readings, List.prefix_append]

theorem ledger_append (hcalls : calls ≠ []) (call : Call × Inputs) :
    ledger (calls ++ [call]) = call.1.accept call.2 (ledger calls) := by
  cases calls with
  | nil => exact absurd rfl hcalls
  | cons first calls => simp [ledger, List.foldl_append]

/-- The last accepted reading after a call is the one before, or a reading of the call. -/
theorem Call.accept_mem (call : Call) (inp : Inputs) (q : ℕ × UInt64) :
    (call.accept inp q).2 = q.2 ∨ (call.accept inp q).2 ∈ call.readings inp := by
  rcases call with _ | h | _
  · exact .inl rfl
  · cases h <;> simp only [accept, readings, List.mem_singleton]
    case startMeasurement | endMeasurement => exact .inr trivial
    case callStart | callEnd => split <;> simp
  · exact .inl rfl

/-- The last accepted reading is one of the readings taken. -/
theorem ledger_mem (hcalls : calls ≠ []) : (ledger calls).2 ∈ readings calls := by
  induction calls using List.reverseRecOn with
  | nil => exact absurd rfl hcalls
  | append_singleton calls call ih =>
    by_cases hnil : calls = []
    · subst hnil
      rcases call.1.accept_mem call.2 (1, call.2.initTsc) with h | h
      · simp [ledger, readings, h]
      · exact List.mem_cons_of_mem _ (List.mem_append_left _ h)
    · rw [ledger_append hnil, readings_append hnil, List.mem_append]
      refine (call.1.accept_mem call.2 (ledger calls)).imp (fun h ↦ ?_) id
      rw [h]
      exact ih hnil

end Ledger

/-! ## What charging does to the sum -/

section Charging

variable {st : ThreadStats}

theorem ThreadStats.cycles_add (state : ExecutionState) {d : UInt64}
    (h : st.cycles + d.toNat < 2 ^ 64) :
    (st.add state.counter d).cycles = st.cycles + d.toNat := by
  have hadd : ∀ c, (st.counters c).toNat ≤ st.cycles →
      (st.counters c + d).toNat = (st.counters c).toNat + d.toNat := by
    intro c hc
    rw [UInt64.toNat_add, Nat.mod_eq_of_lt (by omega)]
  unfold ThreadStats.cycles at hadd ⊢
  cases state <;>
    simp only [ExecutionState.counter, add_counters_self, add_counters_of_ne _ _ _, ne_eq,
      reduceCtorEq, not_false_eq_true]
  all_goals rw [hadd _ (by omega)]; omega

/-- The event counters are no part of the sum. -/
theorem ThreadStats.cycles_count {c : Counter} (hc : c = .unsafeBlocks ∨ c = .externalCalls) :
    (st.add c 1).cycles = st.cycles := by
  have hc : ∀ state : ExecutionState, state.counter ≠ c := by
    intro state
    rcases hc with rfl | rfl <;> cases state <;> simp [ExecutionState.counter]
  have hne : ∀ state : ExecutionState,
      (st.add c 1).counters state.counter = st.counters state.counter :=
    fun state ↦ st.add_counters_of_ne 1 (hc state)
  have h₁ := hne .normal
  have h₂ := hne .unsafeCode
  have h₃ := hne .externalSafe
  have h₄ := hne .externalUnsafe
  simp only [ExecutionState.counter] at h₁ h₂ h₃ h₄
  rw [ThreadStats.cycles, h₁, h₂, h₃, h₄, ThreadStats.cycles]

/-- A charge brings the sum from the start of the context up to the reading. -/
theorem ThreadStats.cycles_charge {frame : ContextFrame} {tsc : UInt64}
    (hpos : 0 < frame.startTsc) (hle : frame.startTsc ≤ tsc)
    (hsum : st.cycles + st.startTsc.toNat = frame.startTsc.toNat) :
    (st.charge frame tsc).cycles + (st.charge frame tsc).startTsc.toNat = tsc.toNat := by
  have hle' := UInt64.le_iff_toNat_le.mp hle
  rw [ThreadStats.charge_startTsc, ThreadStats.charge]
  by_cases hlt : tsc > frame.startTsc
  · rw [if_pos ⟨hpos, hlt⟩]
    have hsub := UInt64.toNat_sub_of_le tsc frame.startTsc hle
    have hbound := tsc.toNat_lt
    rw [ThreadStats.cycles_add _ (by omega)]
    omega
  · rw [if_neg fun h ↦ hlt h.2]
    have heq : tsc = frame.startTsc := by
      refine UInt64.toNat_inj.mp ?_
      have := UInt64.lt_iff_toNat_lt.not.mp hlt
      omega
    rw [heq, hsum]

end Charging

/-! ## The invariant -/

/-- The invariant of a thread that holds a slot, at a depth and a last accepted reading. -/
structure Kept (p : ThreadLocals × ThreadStats) (q : ℕ × UInt64) : Prop where
  depth : p.1.stackDepth = q.1
  pos : 0 < p.1.stackDepth
  /-- The next charge begins at the last accepted reading. -/
  top : (p.1.top pos).startTsc = q.2
  reading_pos : 0 < q.2
  /-- Everything up to there has been charged. -/
  sum : p.2.cycles + p.2.startTsc.toNat = q.2.toNat

theorem ThreadLocals.top_setTop (l : ThreadLocals) (h : 0 < l.stackDepth) (f : ContextFrame) :
    (l.setTop h f).top h = f := Function.update_self ..

theorem ThreadLocals.top_push (l : ThreadLocals) (h : l.stackDepth < maxContextDepth)
    (f : ContextFrame) : (l.push h f).top (Nat.succ_pos _) = f := by
  simp only [top, topIndex, push, Nat.add_sub_cancel, Function.update_self]

/-- A resumed context starts at the reading of the pop, whenever it was suspended. -/
theorem ThreadLocals.top_resume_startTsc (l : ThreadLocals) (h : 1 < l.stackDepth) (tsc : UInt64) :
    ((l.resume h tsc).top (Nat.sub_pos_of_lt h)).startTsc = tsc :=
  congrArg ContextFrame.startTsc (l.pop.top_setTop (Nat.sub_pos_of_lt h) _)

section Steps

variable {inp : Inputs} {l : ThreadLocals} {st : ThreadStats} {depth : ℕ} {last : UInt64}

/-- What a thread has just after it took its slot. -/
theorem kept_enter (k : ℕ) (hpos : 0 < inp.initTsc) :
    Kept (ThreadLocals.new.enter k inp.initTsc, .started inp) (1, inp.initTsc) where
  depth := rfl
  pos := Nat.one_pos
  top := rfl
  reading_pos := hpos
  sum := by simp [ThreadStats.cycles, ThreadStats.started]

/-- **One hook** keeps the invariant, whether its change of context is accepted or refused. -/
theorem Kept.hook (h : Hook) (hk : Kept (l, st) (depth, last)) (hle : last ≤ inp.tsc) :
    Kept (h.effect inp (l, st)) ((Call.hook h).accept inp (depth, last)) := by
  obtain ⟨hdepth, hpos, htop, hreading, hsum⟩ := hk
  have hdepth' : l.stackDepth = depth := hdepth
  have hframe : 0 < (l.top hpos).startTsc := htop.symm ▸ hreading
  have hframe_le : (l.top hpos).startTsc ≤ inp.tsc := htop.symm ▸ hle
  have hcharge := ThreadStats.cycles_charge hframe hframe_le (htop.symm ▸ hsum)
  have htsc : 0 < inp.tsc := by
    have hlast : (0 : UInt64).toNat < last.toNat := UInt64.lt_iff_toNat_lt.mp hreading
    have := UInt64.le_iff_toNat_le.mp hle
    refine UInt64.lt_iff_toNat_lt.mpr ?_
    omega
  -- counting a block or a call is not a cycle
  have hcount : ∀ c, c = .unsafeBlocks ∨ c = .externalCalls →
      ((st.charge (l.top hpos) inp.tsc).add c 1).cycles
        + ((st.charge (l.top hpos) inp.tsc).add c 1).startTsc.toNat = inp.tsc.toNat := by
    intro c hc
    rw [ThreadStats.cycles_count hc]
    exact hcharge
  cases h with
  | startMeasurement =>
    rw [Hook.effect, dif_pos hpos, Call.accept]
    exact ⟨hdepth, hpos, by rw [l.top_setTop], htsc,
      hcount _ (.inl rfl)⟩
  | endMeasurement =>
    rw [Hook.effect, dif_pos hpos, Call.accept]
    exact ⟨hdepth, hpos, by rw [l.top_setTop], htsc, hcharge⟩
  | callStart =>
    by_cases hlt : l.stackDepth < maxContextDepth
    · rw [Hook.effect, dif_pos hlt, dif_pos hpos, Call.accept, if_pos (hdepth' ▸ hlt)]
      exact ⟨congrArg (· + 1) hdepth, Nat.succ_pos _, by rw [l.top_push], htsc,
        hcount _ (.inr rfl)⟩
    · rw [Hook.effect, dif_neg hlt, Call.accept, if_neg (hdepth' ▸ hlt)]
      exact ⟨hdepth, hpos, htop, hreading, hsum⟩
  | callEnd =>
    by_cases hgt : 1 < l.stackDepth
    · rw [Hook.effect, dif_pos hgt, Call.accept, if_pos (hdepth' ▸ hgt)]
      exact ⟨congrArg (· - 1) hdepth, Nat.sub_pos_of_lt hgt, l.top_resume_startTsc hgt inp.tsc,
        htsc, hcharge⟩
    · rw [Hook.effect, dif_neg hgt, Call.accept, if_neg (hdepth' ▸ hgt)]
      exact ⟨hdepth, hpos, htop, hreading, hsum⟩

/-- **One call** before the cleanup keeps the invariant. -/
theorem Kept.call {p : ThreadLocals × ThreadStats} {q : ℕ × UInt64} (call : Call) (hk : Kept p q)
    (hle : ∀ r ∈ call.readings inp, q.2 ≤ r) : Kept (call.effect inp p) (call.accept inp q) := by
  cases call with
  | init => exact hk
  | hook h => exact hk.hook h (hle _ List.mem_cons_self)
  | cleanup => exact hk

/-- The calls of a thread before its cleanup keep the invariant. The induction is on the calls from
the last: each reads the clock no earlier than any call before it, hence no earlier than the last
accepted reading. -/
theorem kept_outcome {k : ℕ} {calls : List (Call × Inputs)} (hcalls : calls ≠ [])
    (hpos : ∀ r ∈ readings calls, 0 < r) (hmono : (readings calls).Pairwise (· ≤ ·)) :
    Kept (outcome k calls) (ledger calls) := by
  induction calls using List.reverseRecOn with
  | nil => exact absurd rfl hcalls
  | append_singleton calls call ih =>
    obtain ⟨call, inp⟩ := call
    by_cases hnil : calls = []
    · subst hnil
      have hread : readings [(call, inp)] = inp.initTsc :: call.readings inp := by simp [readings]
      rw [List.nil_append, hread] at hpos hmono
      exact (kept_enter k (hpos _ List.mem_cons_self)).call call (List.pairwise_cons.mp hmono).1
    · rw [readings_append hnil] at hpos hmono
      obtain ⟨hmono', -, hle⟩ := List.pairwise_append.mp hmono
      rw [outcome_append hnil, ledger_append hnil]
      refine (ih hnil (fun r hr ↦ hpos r (List.mem_append_left _ hr)) hmono').call call ?_
      exact fun r hr ↦ hle _ (ledger_mem hnil) r hr

end Steps

/-! ## Runs -/

section Runs

variable {τ : Type} [DecidableEq τ] [Fintype τ]

theorem cycles_eq_sub {n : ℕ} {a b : UInt64} (h : n + a.toNat = b.toNat) :
    a ≤ b ∧ n = b.toNat - a.toNat :=
  ⟨UInt64.le_iff_toNat_le.mpr (by omega), by omega⟩

/-- **Conservation of cycles.** Take a thread that is between calls and has been given slot `k`, in
any run of the system, and let its readings be positive and never decrease. Before its cleanup, its
slot has been charged exactly the cycles from its start to the last accepted change of context, and
its stack has between `1` and `maxContextDepth` contexts. After its cleanup, and until another
thread is given the slot, the slot has been charged exactly the cycles from the thread's start to
its end. -/
theorem cycles_conserved (ms : List (Move τ (Call × Inputs))) {t : τ} {life : Life} {k : ℕ}
    (hidle : (system.run start ms).Idle t life) (hslot : life.locals.threadSlot = some k)
    (hpos : ∀ r ∈ readings life.calls, 0 < r) (hmono : (readings life.calls).Pairwise (· ≤ ·)) :
    let s := (system.run start ms).shared
    let st := s.threads k
    let last := (ledger life.calls).2
    (life.cleanedUp = false →
      st.startTsc ≤ last ∧ st.cycles = last.toNat - st.startTsc.toNat ∧
        1 ≤ life.locals.stackDepth ∧ life.locals.stackDepth ≤ maxContextDepth) ∧
    (life.cleanedUp = true → s.history.owner k = some t →
      st.startTsc ≤ st.lastKnownTsc ∧
        st.cycles = st.lastKnownTsc.toNat - st.startTsc.toNat) := by
  intro s st last
  have hsettled : Settled t life s := settled_run ms hidle
  cases hsettled with
  | slotless hfree => exact absurd hslot (by simp [Life.new, ThreadLocals.new])
  | @holding s k' l st' calls hlive hcalls hout hslot' _ _ hh =>
    obtain rfl : k' = k := Option.some.inj (hslot'.symm.trans hslot)
    have hkept := kept_outcome (k := k') hcalls hpos hmono
    rw [hout] at hkept
    obtain rfl : st = st' := hh.stats
    refine ⟨fun _ ↦ ?_, fun h ↦ absurd h (by simp)⟩
    obtain ⟨hle, heq⟩ := cycles_eq_sub hkept.sum
    exact ⟨hle, heq, hkept.pos, l.depth_le⟩
  | @retired s k' l st' inp calls hlive hcalls hout hslot' hpos' hleft =>
    obtain rfl : k' = k := Option.some.inj (hslot'.symm.trans hslot)
    rw [readings_append hcalls] at hpos hmono
    obtain ⟨hmono', -, hlast⟩ := List.pairwise_append.mp hmono
    have hkept := kept_outcome (k := k') hcalls (fun r hr ↦ hpos r (List.mem_append_left _ hr)) hmono'
    rw [hout] at hkept
    refine ⟨fun h ↦ absurd h (by simp), fun _ howner ↦ ?_⟩
    have hst : st = st'.finish (l.top hpos') inp.tsc := hleft.stats howner
    rw [hst]
    refine cycles_eq_sub (ThreadStats.cycles_charge (hkept.top ▸ hkept.reading_pos) ?_
      (hkept.top ▸ hkept.sum))
    rw [hkept.top]
    exact hlast _ (ledger_mem hcalls) _ List.mem_cons_self

/-- One thread: an external call in an unsafe region, and a pop too many. -/
def singleThread : List (Move Unit (Call × Inputs)) :=
  Move.alone () (.init, ⟨1, 10, 10, 10⟩) 20 ++
  Move.alone () (.hook .startMeasurement, ⟨1, 10, 20, 20⟩) 20 ++
  Move.alone () (.hook .callStart, ⟨1, 10, 25, 26⟩) 20 ++
  Move.alone () (.hook .callEnd, ⟨1, 10, 40, 40⟩) 20 ++
  Move.alone () (.hook .callEnd, ⟨1, 10, 41, 41⟩) 20 ++
  Move.alone () (.hook .endMeasurement, ⟨1, 10, 50, 50⟩) 20

theorem cycles_conserved_singleThread :
    ∃ life, (system.run start singleThread).Idle () life ∧ life.cleanedUp = false ∧
      ((system.run start singleThread).shared.threads 0).cycles
        = (ledger life.calls).2.toNat
          - ((system.run start singleThread).shared.threads 0).startTsc.toNat := by
  have hdone : ((system.run start singleThread).thread ()).returned.any (fun life ↦
      life.locals.threadSlot = some 0 ∧ life.cleanedUp = false ∧
        (∀ r ∈ readings life.calls, 0 < r) ∧ (readings life.calls).Pairwise (· ≤ ·)) = true := by
    decide +kernel
  obtain ⟨life, hlife, hfacts⟩ := (Option.any_eq_true _ _).mp hdone
  obtain ⟨hslot, hclean, hpos, hmono⟩ := of_decide_eq_true hfacts
  have hidle := Program.returned_eq_some.mp hlife
  exact ⟨life, hidle, hclean,
    ((cycles_conserved singleThread hidle hslot hpos hmono).1 hclean).2.1⟩

end Runs

end UnsafePerf.CpuCycle
