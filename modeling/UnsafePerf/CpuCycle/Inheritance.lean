import UnsafePerf.CpuCycle.Conservation
import UnsafePerf.CpuCycle.Nesting

/-!
# External calls and the unsafe context

What a bracketed trace of regions and external calls is meant to charge: while an external call is
open, time counts as external, and as unsafe if a region is open anywhere below. The code derives
the state of a new context from the context below it, and the default of that derivation forgets
the region: a call out of an external unsafe context starts as external safe.

The state of the top context is a function of the open brackets, `codeState`. It differs from the
intended state exactly while a call is open that started inside both a region and another call
(`Exposed`).
-/

open Concurrency

namespace UnsafePerf.CpuCycle

/-! ## Brackets -/

/-- What can be open. -/
inductive Bracket where
  | region
  | call
  deriving DecidableEq

/-- The open brackets after a call of the thread, the innermost first. -/
def Call.bracket (bs : List Bracket) : Call → List Bracket
  | .hook .startMeasurement => .region :: bs
  | .hook .callStart => .call :: bs
  | .hook .endMeasurement | .hook .callEnd => bs.tail
  | .init | .cleanup => bs

/-- The open brackets after the calls of a thread. -/
def openBrackets (calls : List (Call × Inputs)) : List Bracket :=
  calls.foldl (fun bs e ↦ e.1.bracket bs) []

/-- The calls close the open brackets in order and otherwise bracket. Repeated initialization is
harmless. -/
def WellBracketed : List Bracket → List (Call × Inputs) → Prop
  | bs, [] => bs = []
  | bs, (.init, _) :: calls => WellBracketed bs calls
  | bs, (.hook .startMeasurement, _) :: calls => WellBracketed (.region :: bs) calls
  | bs, (.hook .callStart, _) :: calls => WellBracketed (.call :: bs) calls
  | bs, (.hook .endMeasurement, _) :: calls => bs.head? = some .region ∧ WellBracketed bs.tail calls
  | bs, (.hook .callEnd, _) :: calls => bs.head? = some .call ∧ WellBracketed bs.tail calls
  | _, (.cleanup, _) :: _ => False

instance : ∀ bs calls, Decidable (WellBracketed bs calls)
  | bs, [] => inferInstanceAs (Decidable (bs = []))
  | bs, (.init, _) :: calls => instDecidableWellBracketed bs calls
  | bs, (.hook .startMeasurement, _) :: calls => instDecidableWellBracketed (.region :: bs) calls
  | bs, (.hook .callStart, _) :: calls => instDecidableWellBracketed (.call :: bs) calls
  | bs, (.hook .endMeasurement, _) :: calls =>
    have := instDecidableWellBracketed bs.tail calls
    inferInstanceAs (Decidable (_ ∧ WellBracketed bs.tail calls))
  | bs, (.hook .callEnd, _) :: calls =>
    have := instDecidableWellBracketed bs.tail calls
    inferInstanceAs (Decidable (_ ∧ WellBracketed bs.tail calls))
  | _, (.cleanup, _) :: _ => inferInstanceAs (Decidable False)

/-- The state an external call is meant to be charged to. -/
def intendedState (bs : List Bracket) : ExecutionState :=
  if .region ∈ bs then .externalUnsafe else .externalSafe

/-- An open call started while a region and another call were open. -/
def Exposed : List Bracket → Prop
  | [] => False
  | .call :: bs => (.region ∈ bs ∧ .call ∈ bs) ∨ Exposed bs
  | .region :: bs => Exposed bs

instance : ∀ bs, Decidable (Exposed bs)
  | [] => inferInstanceAs (Decidable False)
  | .call :: bs =>
    have := instDecidableExposed bs
    inferInstanceAs (Decidable (_ ∨ Exposed bs))
  | .region :: bs => instDecidableExposed bs

/-- The time that has passed between two readings. -/
def elapsed (last tsc : UInt64) : UInt64 := if last > 0 ∧ tsc > last then tsc - last else 0

/-- From one slot to the other an amount has been charged to this state, and nothing to others. -/
def ChargedTo (st st' : ThreadStats) (state : ExecutionState) (d : UInt64) : Prop :=
  ∀ state' : ExecutionState, st'.counters state'.counter
    = st.counters state'.counter + if state' = state then d else 0

instance (st st' : ThreadStats) (state : ExecutionState) (d : UInt64) :
    Decidable (ChargedTo st st' state d) :=
  decidable_of_iff (∀ state' ∈ [ExecutionState.normal, .unsafeCode, .externalSafe, .externalUnsafe],
      st'.counters state'.counter = st.counters state'.counter + if state' = state then d else 0)
    ⟨fun h state' ↦ h state' (by cases state' <;> simp), fun h state' _ ↦ h state'⟩

/-! ## The states the code computes -/

/-- The state of the top context. -/
def codeState : List Bracket → ExecutionState
  | [] => .normal
  | .region :: bs => (codeState bs).enterUnsafe
  | .call :: bs => (codeState bs).callExternal

/-- The states of the contexts below. -/
def statesBelow : List Bracket → List ExecutionState
  | [] => []
  | .region :: bs => statesBelow bs
  | .call :: bs => codeState bs :: statesBelow bs

theorem Exposed.mem {bs : List Bracket} (h : Exposed bs) : .region ∈ bs ∧ .call ∈ bs := by
  induction bs with
  | nil => exact h.elim
  | cons b bs ih =>
    cases b with
    | region => exact ⟨List.mem_cons_self, List.mem_cons_of_mem _ (ih h).2⟩
    | call =>
      refine ⟨List.mem_cons_of_mem _ ?_, List.mem_cons_self⟩
      rcases h with h | h
      · exact h.1
      · exact (ih h).1

/-- With one region open the code knows it unless a call is exposed. -/
theorem codeState_eq {bs : List Bracket} (hregion : bs.count .region ≤ 1) :
    codeState bs = if .region ∈ bs ∧ ¬Exposed bs then
        if .call ∈ bs then .externalUnsafe else .unsafeCode
      else if .call ∈ bs then .externalSafe else .normal := by
  induction bs with
  | nil => rfl
  | cons b bs ih =>
    cases b with
    | region =>
      have hnone : .region ∉ bs := by
        rw [List.count_cons_self] at hregion
        exact List.count_eq_zero.mp (by omega)
      have hexposed : ¬Exposed bs := fun h ↦ hnone h.mem.1
      have hbs := ih (by rw [List.count_eq_zero.mpr hnone]; exact Nat.zero_le 1)
      rw [codeState, hbs]
      by_cases hcall : Bracket.call ∈ bs <;>
        simp [hnone, hexposed, hcall, Exposed, ExecutionState.enterUnsafe]
    | call =>
      have hbs := ih (by rwa [List.count_cons_of_ne (by decide)] at hregion)
      rw [codeState, hbs]
      by_cases hcall : Bracket.call ∈ bs <;> by_cases hopen : Bracket.region ∈ bs <;>
        by_cases hexposed : Exposed bs <;>
        simp [hcall, hopen, hexposed, Exposed, ExecutionState.callExternal]

/-- While a call is open, the code charges the intended state unless a call is exposed. -/
theorem codeState_eq_intendedState_iff {bs : List Bracket} (hregion : bs.count .region ≤ 1)
    (hcall : .call ∈ bs) : codeState bs = intendedState bs ↔ ¬Exposed bs := by
  rw [codeState_eq hregion, intendedState]
  by_cases hopen : Bracket.region ∈ bs <;> by_cases hexposed : Exposed bs <;>
    simp [hcall, hopen, hexposed]
  exact hopen hexposed.mem.1

/-! ## The states on the stack -/

namespace ThreadLocals

variable (l : ThreadLocals)

/-- The state of the context at a height. -/
def stateAt (i : ℕ) : ExecutionState :=
  if h : i < maxContextDepth then (l.contextStack ⟨i, h⟩).state else .normal

/-- The states of all contexts, the top one first. -/
def states : List ExecutionState := ((List.range l.stackDepth).map l.stateAt).reverse

theorem stateAt_update (l' : ThreadLocals) (i : Fin maxContextDepth) (f : ContextFrame)
    (h : l'.contextStack = Function.update l.contextStack i f) (j : ℕ) :
    l'.stateAt j = if j = i.val then f.state else l.stateAt j := by
  rw [stateAt, stateAt, h]
  by_cases hj : j < maxContextDepth
  · rw [dif_pos hj, dif_pos hj, Function.update_apply]
    by_cases heq : j = i.val
    · simp [heq]
    · rw [if_neg heq, if_neg fun h ↦ heq (congrArg Fin.val h)]
  · rw [dif_neg hj, dif_neg hj, if_neg]
    rintro rfl
    exact hj i.isLt

theorem states_of_succ {n : ℕ} (h : l.stackDepth = n + 1) :
    l.states = l.stateAt n :: ((List.range n).map l.stateAt).reverse := by
  rw [states, h, List.range_succ, List.map_append, List.reverse_append, List.map_singleton,
    List.reverse_singleton, List.singleton_append]

theorem states_push (h : l.stackDepth < maxContextDepth) (f : ContextFrame) :
    (l.push h f).states = f.state :: l.states := by
  have hstate := l.stateAt_update (l.push h f) ⟨l.stackDepth, h⟩ f rfl
  rw [(l.push h f).states_of_succ rfl, hstate, if_pos rfl, states]
  refine congrArg (f.state :: List.reverse ·) (List.map_congr_left fun i hi ↦ ?_)
  rw [hstate, if_neg (Nat.ne_of_lt (List.mem_range.mp hi))]

theorem states_setTop (h : 0 < l.stackDepth) (f : ContextFrame) :
    (l.setTop h f).states = f.state :: l.states.tail := by
  obtain ⟨n, hn⟩ := Nat.exists_eq_succ_of_ne_zero (Nat.ne_of_gt h)
  have hstate := l.stateAt_update (l.setTop h f) (l.topIndex h) f rfl
  have htop : (l.topIndex h).val = n := by
    change l.stackDepth - 1 = n
    omega
  rw [htop] at hstate
  rw [(l.setTop h f).states_of_succ hn, l.states_of_succ hn, hstate, if_pos rfl, List.tail_cons]
  refine congrArg (f.state :: List.reverse ·) (List.map_congr_left fun i hi ↦ ?_)
  rw [hstate, if_neg (Nat.ne_of_lt (List.mem_range.mp hi))]

theorem states_pop : l.pop.states = l.states.tail := by
  cases hdepth : l.stackDepth with
  | zero => simp [states, pop, hdepth]
  | succ n =>
    have hn : l.pop.stackDepth = n := by
      change l.stackDepth - 1 = n
      omega
    have hpop : l.pop.states = ((List.range n).map l.stateAt).reverse := by
      rw [states, hn]
      rfl
    rw [hpop, l.states_of_succ hdepth, List.tail_cons]

theorem currentState_eq (h : 0 < l.stackDepth) : l.states = l.currentState :: l.states.tail := by
  obtain ⟨n, hn⟩ := Nat.exists_eq_succ_of_ne_zero (Nat.ne_of_gt h)
  have hlt : n < maxContextDepth := by
    have := l.depth_le
    omega
  have hindex : (⟨n, hlt⟩ : Fin maxContextDepth) = l.topIndex h := by
    refine Fin.ext ?_
    change n = l.stackDepth - 1
    omega
  have htop : l.stateAt n = l.currentState := by
    rw [stateAt, dif_pos hlt, currentState, dif_pos h, hindex, top]
  rw [l.states_of_succ hn, List.tail_cons, htop]

/-- Resuming a context does not change its state. -/
theorem states_resume (h : 1 < l.stackDepth) (tsc : UInt64) :
    (l.resume h tsc).states = l.states.tail := by
  have hpos : 0 < l.pop.stackDepth := Nat.sub_pos_of_lt h
  have htop : l.pop.currentState = (l.pop.top hpos).state := dif_pos hpos
  calc (l.resume h tsc).states
      = (l.pop.top hpos).state :: l.pop.states.tail := l.pop.states_setTop hpos _
    _ = l.pop.states := by rw [← htop, ← l.pop.currentState_eq hpos]
    _ = l.states.tail := l.states_pop

end ThreadLocals

/-! ## Traces -/

theorem length_statesBelow (bs : List Bracket) : (statesBelow bs).length = bs.count .call := by
  induction bs with
  | nil => rfl
  | cons b bs ih =>
    cases b with
    | region => rw [statesBelow, ih, List.count_cons_of_ne (by decide)]
    | call => rw [statesBelow, List.length_cons, ih, List.count_cons_self]

/-- The brackets stay within the limits: one region and 31 calls. -/
def Limited (bs : List Bracket) : Prop := bs.count .region ≤ 1 ∧ bs.count .call ≤ 31

instance (bs : List Bracket) : Decidable (Limited bs) := inferInstanceAs (Decidable (_ ∧ _))

/-- The stack mirrors the open brackets, and its top context starts at the last reading. -/
structure Mirrors (l : ThreadLocals) (bs : List Bracket) (q : ℕ × UInt64) : Prop where
  pos : 0 < l.stackDepth
  states : l.states = codeState bs :: statesBelow bs
  depth : l.stackDepth = q.1
  start : (l.top pos).startTsc = q.2

namespace Mirrors

variable {l : ThreadLocals} {st : ThreadStats} {bs : List Bracket} {q : ℕ × UInt64} {inp : Inputs}

theorem enter (k : ℕ) : Mirrors (ThreadLocals.new.enter k inp.initTsc) [] (1, inp.initTsc) where
  pos := Nat.one_pos
  states := rfl
  depth := rfl
  start := rfl

theorem currentState (h : Mirrors l bs q) : l.currentState = codeState bs := by
  have hstates := l.currentState_eq h.pos
  rw [h.states] at hstates
  exact (List.cons.inj hstates).1.symm

theorem depth_eq (h : Mirrors l bs q) : l.stackDepth = bs.count .call + 1 := by
  have hlength : l.states.length = l.stackDepth := by simp [ThreadLocals.states]
  rw [← hlength, h.states, List.length_cons, length_statesBelow]

/-- What a region hook does to the stack. -/
theorem setTop (h : Mirrors l bs q) (bs' : List Bracket) (tsc : UInt64)
    (hbelow : statesBelow bs' = statesBelow bs) :
    Mirrors (l.setTop h.pos ⟨codeState bs', tsc⟩) bs' (q.1, tsc) where
  pos := h.pos
  states := by rw [l.states_setTop, h.states, hbelow, List.tail_cons]
  depth := h.depth
  start := congrArg ContextFrame.startTsc (l.top_setTop h.pos _)

theorem startMeasurement (h : Mirrors l bs q) :
    Mirrors (Hook.startMeasurement.effect inp (l, st)).1 (.region :: bs) (q.1, inp.tsc) := by
  rw [Hook.effect, dif_pos h.pos, h.currentState]
  exact h.setTop (.region :: bs) inp.tsc rfl

/-- The end of the only open region restores the state in which it began. -/
theorem endMeasurement (h : Mirrors l (.region :: bs) q) (hregion : bs.count .region = 0) :
    Mirrors (Hook.endMeasurement.effect inp (l, st)).1 bs (q.1, inp.tsc) := by
  have hleave : (codeState (.region :: bs)).leaveUnsafe = codeState bs := by
    rw [codeState, codeState_eq (by omega), if_neg fun hopen ↦ List.count_eq_zero.mp hregion hopen.1]
    split
    · rfl
    · rfl
  rw [Hook.effect, dif_pos h.pos, h.currentState, hleave]
  exact h.setTop bs inp.tsc rfl

theorem callStart (h : Mirrors l bs q) (hlt : l.stackDepth < maxContextDepth) :
    Mirrors (Hook.callStart.effect inp (l, st)).1 (.call :: bs) (q.1 + 1, inp.tsc) := by
  rw [Hook.effect, dif_pos hlt, h.currentState]
  exact ⟨Nat.succ_pos _, by rw [l.states_push, h.states]; rfl, congrArg (· + 1) h.depth,
    congrArg ContextFrame.startTsc (l.top_push hlt _)⟩

theorem callEnd (h : Mirrors l (.call :: bs) q) (hgt : 1 < l.stackDepth) :
    Mirrors (Hook.callEnd.effect inp (l, st)).1 bs (q.1 - 1, inp.tsc) := by
  rw [Hook.effect, dif_pos hgt]
  exact ⟨Nat.sub_pos_of_lt hgt, by rw [l.states_resume, h.states]; rfl, congrArg (· - 1) h.depth,
    l.top_resume_startTsc hgt inp.tsc⟩

/-- **One call** of a bracketed trace. -/
theorem call (h : Mirrors l bs q) {call : Call} {calls : List (Call × Inputs)}
    (hbracketed : WellBracketed bs ((call, inp) :: calls)) (hlimited : Limited bs)
    (hlimited' : Limited (call.bracket bs)) :
    Mirrors (call.effect inp (l, st)).1 (call.bracket bs) (call.accept inp q) := by
  have hdepth := h.depth_eq
  have hq := h.depth
  rcases call with _ | hook | _
  · exact h
  · cases hook with
    | startMeasurement => exact h.startMeasurement
    | endMeasurement =>
      rcases bs with _ | ⟨b, rest⟩
      · exact absurd hbracketed.1 (by simp)
      · obtain rfl : b = .region := Option.some.inj hbracketed.1
        have hcount := hlimited.1
        rw [List.count_cons_self] at hcount
        exact h.endMeasurement (by omega)
    | callStart =>
      have hcount : List.count Bracket.call (.call :: bs) ≤ 31 := hlimited'.2
      rw [List.count_cons_self] at hcount
      have hlt : l.stackDepth < maxContextDepth := by
        rw [maxContextDepth]
        omega
      rw [Call.accept, if_pos (hq ▸ hlt)]
      exact h.callStart hlt
    | callEnd =>
      rcases bs with _ | ⟨b, rest⟩
      · exact absurd hbracketed.1 (by simp)
      · obtain rfl : b = .call := Option.some.inj hbracketed.1
        rw [List.count_cons_self] at hdepth
        have hgt : 1 < l.stackDepth := by omega
        rw [Call.accept, if_pos (hq ▸ hgt)]
        exact h.callEnd hgt
  · exact hbracketed.elim

end Mirrors

section Sequences

variable {k : ℕ} {calls : List (Call × Inputs)}

theorem openBrackets_append (calls : List (Call × Inputs)) (e : Call × Inputs) :
    openBrackets (calls ++ [e]) = e.1.bracket (openBrackets calls) := by
  rw [openBrackets, List.foldl_append, List.foldl_cons, List.foldl_nil, openBrackets]

/-- The rest of a bracketed trace closes what is open. -/
theorem WellBracketed.rest {bs : List Bracket} {pre post : List (Call × Inputs)}
    (h : WellBracketed bs (pre ++ post)) :
    WellBracketed (pre.foldl (fun bs e ↦ e.1.bracket bs) bs) post := by
  induction pre generalizing bs with
  | nil => exact h
  | cons e pre ih =>
    obtain ⟨call, inp⟩ := e
    rcases call with _ | hook | _
    · exact ih h
    · cases hook with
      | startMeasurement => exact @ih (.region :: bs) h
      | callStart => exact @ih (.call :: bs) h
      | endMeasurement => exact @ih bs.tail h.2
      | callEnd => exact @ih bs.tail h.2
    · exact h.elim

/-- The outcome of the calls of a bracketed trace mirrors the open brackets. -/
theorem mirrors_outcome (hbracketed : WellBracketed [] calls)
    (hlimited : ∀ pre, pre <+: calls → Limited (openBrackets pre)) {pre : List (Call × Inputs)}
    (hne : pre ≠ []) (hpre : pre <+: calls) :
    Mirrors (outcome k pre).1 (openBrackets pre) (ledger pre) := by
  induction pre using List.reverseRecOn with
  | nil => exact absurd rfl hne
  | append_singleton pre e ih =>
    obtain ⟨call, inp⟩ := e
    have hbefore : pre <+: calls := (List.prefix_append _ _).trans hpre
    obtain ⟨post, rfl⟩ := hpre
    rw [List.append_assoc] at hbracketed
    have hrest : WellBracketed (openBrackets pre) ((call, inp) :: post) := hbracketed.rest
    have hlimit := hlimited _ hbefore
    have hlimit' := hlimited (pre ++ [(call, inp)]) (List.prefix_append _ _)
    rw [openBrackets_append] at hlimit' ⊢
    by_cases hnil : pre = []
    · subst hnil
      exact (Mirrors.enter k).call hrest hlimit hlimit'
    · rw [outcome_append hnil, ledger_append hnil]
      exact (ih hnil hbefore).call hrest hlimit hlimit'

end Sequences

/-! ## Charges -/

section Charges

variable {l : ThreadLocals} {st st' : ThreadStats} {inp : Inputs} {bs : List Bracket}
  {q : ℕ × UInt64}

theorem chargedTo_charge (st : ThreadStats) (frame : ContextFrame) (tsc : UInt64) :
    ChargedTo st (st.charge frame tsc) frame.state (elapsed frame.startTsc tsc) := by
  intro state
  rw [ThreadStats.charge, elapsed]
  by_cases hpast : frame.startTsc > 0 ∧ tsc > frame.startTsc
  · rw [if_pos hpast, if_pos hpast]
    by_cases hstate : state = frame.state
    · rw [hstate, st.add_counters_self, if_pos rfl]
    · have hne : state.counter ≠ frame.state.counter := by
        revert hstate
        cases state <;> cases frame.state <;> simp [ExecutionState.counter]
      rw [st.add_counters_of_ne _ hne, if_neg hstate, UInt64.add_zero]
  · rw [if_neg hpast, if_neg hpast, ite_self, UInt64.add_zero]

/-- Counting an event charges no time. -/
theorem ChargedTo.add_count {state : ExecutionState} {d : UInt64}
    (h : ChargedTo st st' state d) {c : Counter} (hc : c = .unsafeBlocks ∨ c = .externalCalls) :
    ChargedTo st (st'.add c 1) state d := by
  intro state'
  have hne : state'.counter ≠ c := by
    rcases hc with rfl | rfl <;> cases state' <;> simp [ExecutionState.counter]
  rw [st'.add_counters_of_ne _ hne]
  exact h state'

/-- A hook charges the time since the last reading to the state the code computes. -/
theorem Mirrors.chargedTo (h : Mirrors l bs q) {hook : Hook} {calls : List (Call × Inputs)}
    (hbracketed : WellBracketed bs ((.hook hook, inp) :: calls))
    (hlimited : Limited ((Call.hook hook).bracket bs)) :
    ChargedTo st (hook.effect inp (l, st)).2 (codeState bs) (elapsed q.2 inp.tsc) := by
  have hdepth := h.depth_eq
  have hcharge := chargedTo_charge st (l.top h.pos) inp.tsc
  have hstate : (l.top h.pos).state = codeState bs := by
    rw [← h.currentState, ThreadLocals.currentState, dif_pos h.pos]
  rw [h.start, hstate] at hcharge
  cases hook with
  | startMeasurement =>
    rw [Hook.effect, dif_pos h.pos]
    exact hcharge.add_count (.inl rfl)
  | endMeasurement =>
    rw [Hook.effect, dif_pos h.pos]
    exact hcharge
  | callStart =>
    have hcount : List.count Bracket.call (.call :: bs) ≤ 31 := hlimited.2
    rw [List.count_cons_self] at hcount
    have hlt : l.stackDepth < maxContextDepth := by
      rw [maxContextDepth]
      omega
    rw [Hook.effect, dif_pos hlt, dif_pos h.pos]
    exact hcharge.add_count (.inr rfl)
  | callEnd =>
    have hopen : Bracket.call ∈ bs := List.mem_of_mem_head? (Option.mem_def.mpr hbracketed.1)
    have hcount := List.count_pos_iff.mpr hopen
    have hgt : 1 < l.stackDepth := by omega
    rw [Hook.effect, dif_pos hgt]
    exact hcharge

/-- An amount has been charged to one state only, unless it is zero. -/
theorem ChargedTo.iff {state state' : ExecutionState} {d : UInt64} (h : ChargedTo st st' state d) :
    ChargedTo st st' state' d ↔ state = state' ∨ d = 0 := by
  constructor
  · intro h'
    by_cases hstate : state = state'
    · exact .inl hstate
    · have hsame := (h state').symm.trans (h' state')
      rw [if_neg (Ne.symm hstate), if_pos rfl, UInt64.add_right_inj] at hsame
      exact .inr hsame.symm
  · rintro (rfl | rfl)
    · exact h
    · intro state''
      rw [h state'', ite_self, ite_self]

/-- **One interval.** While a call is open, a hook charges the intended state exactly if no time has
passed or no call is exposed. -/
theorem Mirrors.intended_iff (h : Mirrors l bs q) {hook : Hook} {calls : List (Call × Inputs)}
    (hbracketed : WellBracketed bs ((.hook hook, inp) :: calls)) (hlimited : Limited bs)
    (hlimited' : Limited ((Call.hook hook).bracket bs)) (hcall : .call ∈ bs) :
    ChargedTo st (hook.effect inp (l, st)).2 (intendedState bs) (elapsed q.2 inp.tsc) ↔
      (Exposed bs → elapsed q.2 inp.tsc = 0) := by
  rw [(h.chargedTo hbracketed hlimited').iff, codeState_eq_intendedState_iff hlimited.1 hcall,
    imp_iff_not_or]

end Charges

/-! ## Runs -/

section Runs

variable {τ : Type} [DecidableEq τ] [Fintype τ]

theorem WellBracketed.live {bs : List Bracket} {calls : List (Call × Inputs)}
    (h : WellBracketed bs calls) : ∀ e ∈ calls, e.1 ≠ .cleanup := by
  induction calls generalizing bs with
  | nil => simp
  | cons e calls ih =>
    obtain ⟨call, inp⟩ := e
    rcases call with _ | hook | _
    · exact List.forall_mem_cons.mpr ⟨by simp, ih h⟩
    · refine List.forall_mem_cons.mpr ⟨by simp, ?_⟩
      cases hook with
      | startMeasurement | callStart => exact ih h
      | endMeasurement | callEnd => exact ih h.2
    · exact h.elim

/-- In any run, a hook inside an external call has charged the intended state exactly if no time has
passed or no call was exposed. -/
theorem hook_charged_iff {ms₁ ms₂ ms : List (Move τ (Call × Inputs))} (h₁₂ : ms₁ <+: ms₂)
    (h₂ : ms₂ <+: ms) {t : τ} {life₁ life₂ life : Life} {k : ℕ} {hook : Hook} {inp : Inputs}
    (hidle₁ : (system.run start ms₁).Idle t life₁) (hidle₂ : (system.run start ms₂).Idle t life₂)
    (hidle : (system.run start ms).Idle t life) (hslot : life.locals.threadSlot = some k)
    (hbracketed : WellBracketed [] life.calls)
    (hlimited : ∀ pre, pre <+: life.calls → Limited (openBrackets pre))
    (hcalls : life₂.calls = life₁.calls ++ [(.hook hook, inp)])
    (hopen : .call ∈ openBrackets life₁.calls) :
    ChargedTo ((system.run start ms₁).shared.threads k) ((system.run start ms₂).shared.threads k)
        (intendedState (openBrackets life₁.calls)) (elapsed (ledger life₁.calls).2 inp.tsc) ↔
      (Exposed (openBrackets life₁.calls) → elapsed (ledger life₁.calls).2 inp.tsc = 0) := by
  have hpre₂ := calls_prefix h₂ hidle₂ hidle
  rw [hcalls] at hpre₂
  have hpre₁ : life₁.calls <+: life.calls := (List.prefix_append _ _).trans hpre₂
  have hne : life₁.calls ≠ [] := by
    intro hnil
    rw [hnil] at hopen
    exact List.not_mem_nil hopen
  -- the slot before and after the hook
  have hst₁ := slot_of_calls (h₁₂.trans h₂) hidle₁ hidle hslot hne
    fun e he ↦ hbracketed.live e (hpre₁.subset he)
  have hst₂ := slot_of_calls h₂ hidle₂ hidle hslot (by simp [hcalls])
    fun e he ↦ hbracketed.live e (hpre₂.subset (hcalls ▸ he))
  have hlimit' := hlimited _ hpre₂
  rw [openBrackets_append] at hlimit'
  rw [hst₁, hst₂, hcalls, outcome_append hne]
  have hmirrors := mirrors_outcome (k := k) hbracketed hlimited hne hpre₁
  have hlimit := hlimited _ hpre₁
  obtain ⟨post, hpost⟩ := hpre₂
  rw [List.append_assoc] at hpost
  rw [← hpost] at hbracketed
  exact hmirrors.intended_iff hbracketed.rest hlimit hlimit' hopen

/-- **Inheritance of the unsafe context.** Take a thread that has made a bracketed trace of region
hooks and external calls, with at most one region and 31 calls open at a time, in any run of the
system. Every hook inside an external call has charged the time since the hook before it to the
intended state exactly if no time has passed while a call was open that started inside both a region
and another call. -/
theorem external_calls_inherit_iff (ms : List (Move τ (Call × Inputs))) {t : τ} {life : Life}
    {k : ℕ} (hidle : (system.run start ms).Idle t life) (hslot : life.locals.threadSlot = some k)
    (hbracketed : WellBracketed [] life.calls)
    (hlimited : ∀ pre, pre <+: life.calls → Limited (openBrackets pre)) :
    (∀ ms₁ ms₂, ms₁ <+: ms₂ → ms₂ <+: ms → ∀ life₁ life₂ hook inp,
      (system.run start ms₁).Idle t life₁ → (system.run start ms₂).Idle t life₂ →
      life₂.calls = life₁.calls ++ [(.hook hook, inp)] → .call ∈ openBrackets life₁.calls →
      ChargedTo ((system.run start ms₁).shared.threads k) ((system.run start ms₂).shared.threads k)
        (intendedState (openBrackets life₁.calls)) (elapsed (ledger life₁.calls).2 inp.tsc)) ↔
    ∀ pre hook inp, pre ++ [(.hook hook, inp)] <+: life.calls → Exposed (openBrackets pre) →
      elapsed (ledger pre).2 inp.tsc = 0 := by
  constructor
  · intro hcharged pre hook inp hpre hexposed
    obtain ⟨ms₂, life₂, h₂, hidle₂, hcalls₂⟩ := exists_idle_of_prefix ms hidle hpre
    obtain ⟨ms₁, life₁, h₁₂, hidle₁, hcalls₁⟩ := exists_idle_of_prefix ms₂ hidle₂
      (hcalls₂ ▸ List.prefix_append pre _)
    subst hcalls₁
    have hopen := hexposed.mem.2
    exact (hook_charged_iff h₁₂ h₂ hidle₁ hidle₂ hidle hslot hbracketed hlimited hcalls₂ hopen).mp
      (hcharged ms₁ ms₂ h₁₂ h₂ life₁ life₂ hook inp hidle₁ hidle₂ hcalls₂ hopen) hexposed
  · intro hcond ms₁ ms₂ h₁₂ h₂ life₁ life₂ hook inp hidle₁ hidle₂ hcalls hopen
    refine (hook_charged_iff h₁₂ h₂ hidle₁ hidle₂ hidle hslot hbracketed hlimited hcalls hopen).mpr
      (hcond _ hook inp ?_)
    rw [← hcalls]
    exact calls_prefix h₂ hidle₂ hidle

/-- One thread: in an unsafe region an external call, and out of it another. -/
def callInCall : List (Move Unit (Call × Inputs)) :=
  Move.alone () (.init, ⟨1, 10, 10, 10⟩) 20 ++
  Move.alone () (.hook .startMeasurement, ⟨1, 10, 20, 21⟩) 20 ++
  Move.alone () (.hook .callStart, ⟨1, 10, 30, 31⟩) 20 ++
  Move.alone () (.hook .callStart, ⟨1, 10, 40, 41⟩) 20

/-- The return of the inner call. -/
def innerReturn : Inputs := ⟨1, 10, 50, 50⟩

/-- The calls return and the region ends. -/
def callReturns : List (Move Unit (Call × Inputs)) :=
  Move.alone () (.hook .callEnd, innerReturn) 20 ++
  (Move.alone () (.hook .callEnd, ⟨1, 10, 60, 60⟩) 20 ++
  Move.alone () (.hook .endMeasurement, ⟨1, 10, 70, 70⟩) 20)

theorem callInCall_idle : ∃ life,
    (system.run start (callInCall ++ callReturns)).Idle () life ∧
      life.locals.threadSlot = some 0 ∧ WellBracketed [] life.calls ∧
      ∀ pre, pre <+: life.calls → Limited (openBrackets pre) := by
  have hdone : ((system.run start (callInCall ++ callReturns)).thread ()).returned.any
      (fun life ↦ life.locals.threadSlot = some 0 ∧ WellBracketed [] life.calls ∧
        ∀ pre ∈ life.calls.inits, Limited (openBrackets pre)) = true := by decide +kernel
  obtain ⟨life, hlife, hfacts⟩ := (Option.any_eq_true _ _).mp hdone
  obtain ⟨hslot, hbracketed, hlimited⟩ := of_decide_eq_true hfacts
  exact ⟨life, Program.returned_eq_some.mp hlife, hslot, hbracketed,
    fun pre hpre ↦ hlimited pre ((List.mem_inits _ _).mpr hpre)⟩

theorem callInCall_charged : ∃ life₁ life₂,
    (system.run start callInCall).Idle () life₁ ∧
      (system.run start (callInCall ++ Move.alone () (.hook .callEnd, innerReturn) 20)).Idle ()
        life₂ ∧
      life₂.calls = life₁.calls ++ [(.hook .callEnd, innerReturn)] ∧
      .call ∈ openBrackets life₁.calls ∧
      ¬ChargedTo ((system.run start callInCall).shared.threads 0)
        ((system.run start
          (callInCall ++ Move.alone () (.hook .callEnd, innerReturn) 20)).shared.threads 0)
        (intendedState (openBrackets life₁.calls))
        (elapsed (ledger life₁.calls).2 innerReturn.tsc) := by
  have hdone : ((system.run start callInCall).thread ()).returned.any (fun life₁ ↦
      ((system.run start (callInCall ++ Move.alone () (.hook .callEnd, innerReturn) 20)).thread
        ()).returned.any fun life₂ ↦
        life₂.calls = life₁.calls ++ [(.hook .callEnd, innerReturn)] ∧
        .call ∈ openBrackets life₁.calls ∧
        ¬ChargedTo ((system.run start callInCall).shared.threads 0)
          ((system.run start
            (callInCall ++ Move.alone () (.hook .callEnd, innerReturn) 20)).shared.threads 0)
          (intendedState (openBrackets life₁.calls))
          (elapsed (ledger life₁.calls).2 innerReturn.tsc)) = true := by decide +kernel
  obtain ⟨life₁, hlife₁, hdone⟩ := (Option.any_eq_true _ _).mp hdone
  obtain ⟨life₂, hlife₂, hfacts⟩ := (Option.any_eq_true _ _).mp hdone
  exact ⟨life₁, life₂, Program.returned_eq_some.mp hlife₁, Program.returned_eq_some.mp hlife₂,
    of_decide_eq_true hfacts⟩

/-- The inner call is charged as safe although the region is open. -/
theorem external_calls_not_inherited :
    ∃ (ms : List (Move Unit (Call × Inputs))) (life : Life),
      (system.run start ms).Idle () life ∧ life.locals.threadSlot = some 0 ∧
      WellBracketed [] life.calls ∧ (∀ pre, pre <+: life.calls → Limited (openBrackets pre)) ∧
      ¬∀ ms₁ ms₂, ms₁ <+: ms₂ → ms₂ <+: ms → ∀ life₁ life₂ hook inp,
        (system.run start ms₁).Idle () life₁ → (system.run start ms₂).Idle () life₂ →
        life₂.calls = life₁.calls ++ [(.hook hook, inp)] → .call ∈ openBrackets life₁.calls →
        ChargedTo ((system.run start ms₁).shared.threads 0)
          ((system.run start ms₂).shared.threads 0)
          (intendedState (openBrackets life₁.calls)) (elapsed (ledger life₁.calls).2 inp.tsc) := by
  obtain ⟨life, hidle, hslot, hbracketed, hlimited⟩ := callInCall_idle
  obtain ⟨life₁, life₂, hidle₁, hidle₂, hcalls, hopen, hnot⟩ := callInCall_charged
  refine ⟨callInCall ++ callReturns, life, hidle, hslot, hbracketed, hlimited, fun h ↦ hnot ?_⟩
  refine h _ _ (List.prefix_append _ _) ?_ _ _ _ _ hidle₁ hidle₂ hcalls hopen
  exact (List.prefix_append_right_inj _).mpr (List.prefix_append _ _)

theorem external_calls_inherit_iff_callInCall : ∃ life,
    (system.run start (callInCall ++ callReturns)).Idle () life ∧
      ((∀ ms₁ ms₂, ms₁ <+: ms₂ → ms₂ <+: callInCall ++ callReturns → ∀ life₁ life₂ hook inp,
        (system.run start ms₁).Idle () life₁ → (system.run start ms₂).Idle () life₂ →
        life₂.calls = life₁.calls ++ [(.hook hook, inp)] → .call ∈ openBrackets life₁.calls →
        ChargedTo ((system.run start ms₁).shared.threads 0)
          ((system.run start ms₂).shared.threads 0)
          (intendedState (openBrackets life₁.calls)) (elapsed (ledger life₁.calls).2 inp.tsc)) ↔
      ∀ pre hook inp, pre ++ [(.hook hook, inp)] <+: life.calls → Exposed (openBrackets pre) →
        elapsed (ledger pre).2 inp.tsc = 0) := by
  obtain ⟨life, hidle, hslot, hbracketed, hlimited⟩ := callInCall_idle
  exact ⟨life, hidle,
    external_calls_inherit_iff (callInCall ++ callReturns) hidle hslot hbracketed hlimited⟩

end Runs

end UnsafePerf.CpuCycle
