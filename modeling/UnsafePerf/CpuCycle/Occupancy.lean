import UnsafePerf.Concurrency.Turns
import UnsafePerf.CpuCycle.System
import Mathlib.Data.Set.Card

/-!
# Which slots are in use

The allocation of slots decides by the states of the slots and their number alone. When threads
start and end one after the other, a slot below `nextSlot` is active or terminated: the active ones
are those of the threads that have a slot and have not ended, and a terminated one is taken again
before a new one is. So an allocation fails only when every slot of the array is active.
-/

open Concurrency

namespace UnsafePerf.CpuCycle

/-! ## The states of the slots -/

/-- What the allocation sees of the registry. -/
@[ext] structure SlotStates where
  state : ℕ → ThreadState
  next : ℕ

/-- Change the state of one slot. -/
def SlotStates.set (v : SlotStates) (k : ℕ) (state : ThreadState) : SlotStates :=
  { v with state := Function.update v.state k state }

/-- What a call of `allocate_slot` does when nothing happens in between. -/
inductive Allocates (v : SlotStates) : Option ℕ → SlotStates → Prop where
  /-- A terminated slot is reset. -/
  | reuse {k : ℕ} (hk : k < min v.next maxThreads) (hstate : v.state k = .terminated) :
      Allocates v (some k) (v.set k .uninitialized)
  /-- There is none, and the array has room. -/
  | fresh (hnone : ∀ k < min v.next maxThreads, v.state k ≠ .terminated)
      (hlt : v.next < maxThreads) : Allocates v (some v.next) { v with next := v.next + 1 }
  /-- There is none, and the array has no room: the increment is taken back. -/
  | full (hnone : ∀ k < min v.next maxThreads, v.state k ≠ .terminated)
      (hge : maxThreads ≤ v.next) : Allocates v none v

theorem Allocates.eq_of_none {v v' : SlotStates} (h : Allocates v none v') : v' = v := by
  cases h
  rfl

/-- The states of the slots, and how many have been taken. -/
def Shared.slots {τ : Type} (s : Shared τ) : SlotStates :=
  ⟨fun k ↦ (s.threads k).state, s.nextSlot⟩

section Steps

variable {τ : Type} {t : τ} {k : ℕ} {s : Shared τ}

theorem slots_setStats (s : Shared τ) (k : ℕ) (st : ThreadStats) :
    (s.setStats k st).slots = s.slots.set k st.state := by
  refine SlotStates.ext (funext fun j ↦ ?_) rfl
  exact Function.apply_update (fun _ ↦ ThreadStats.state) s.threads k st j

theorem slots_set_self (s : Shared τ) (k : ℕ) : s.slots.set k (s.threads k).state = s.slots :=
  SlotStates.ext (Function.update_eq_self ..) rfl

theorem storeActive_slots : ((storeActive t k).exec s).2.slots = s.slots.set k .active := by
  rw [storeActive, Program.exec_store, slots_setStats]
  rfl

theorem storeTerminated_slots [DecidableEq τ] :
    ((storeTerminated t k).exec s).2.slots = s.slots.set k .terminated := by
  rw [storeTerminated, Program.exec_store, slots_setStats]
  rfl

/-- Run alone, the program leaves the states of the slots as they are. -/
def KeepsSlots {α : Type} (p : Program (Shared τ) α) : Prop := ∀ s, (p.exec s).2.slots = s.slots

theorem KeepsSlots.bind {α β : Type} {p : Program (Shared τ) α} {f : α → Program (Shared τ) β}
    (h : KeepsSlots p) (hf : ∀ a, KeepsSlots (f a)) : KeepsSlots (p >>= f) := by
  intro s
  rw [Program.exec_bind, hf, h]

theorem keepsSlots_storeField {f : ThreadStats → ThreadStats}
    (hf : ∀ st, (f st).state = st.state) : KeepsSlots (storeField t k f) := by
  intro s
  rw [storeField, Program.exec_store, slots_setStats, hf, slots_set_self]

theorem keepsSlots_storeThreadId (threadId : UInt64) :
    KeepsSlots (storeField t k fun st ↦ { st with threadId }) :=
  keepsSlots_storeField fun _ ↦ rfl

theorem keepsSlots_storeStartTsc (startTsc : UInt64) :
    KeepsSlots (storeField t k fun st ↦ { st with startTsc }) :=
  keepsSlots_storeField fun _ ↦ rfl

theorem keepsSlots_storeLastKnownTsc (lastKnownTsc : UInt64) :
    KeepsSlots (storeField t k fun st ↦ { st with lastKnownTsc }) :=
  keepsSlots_storeField fun _ ↦ rfl

theorem keepsSlots_resetCounter (c : Counter) : KeepsSlots (resetCounter t k c) := by
  intro s
  rw [resetCounter, Program.exec_store, slots_setStats]
  exact slots_set_self s k

theorem keepsSlots_account [DecidableEq τ] (frame : ContextFrame) (tsc : UInt64) :
    KeepsSlots (account t k frame tsc) := by
  intro s
  rw [account]
  split
  · rw [fetchAddCounter, Program.exec_store, slots_setStats]
    exact slots_set_self s k
  · rfl

theorem keepsSlots_resetStatistics [DecidableEq τ] : KeepsSlots (resetStatistics t k) := by
  rw [resetStatistics]
  refine KeepsSlots.bind (keepsSlots_storeThreadId _) fun _ ↦ ?_
  refine KeepsSlots.bind (keepsSlots_storeStartTsc _) fun _ ↦ ?_
  refine KeepsSlots.bind (keepsSlots_storeLastKnownTsc _) fun _ ↦ ?_
  refine KeepsSlots.bind (keepsSlots_resetCounter _) fun _ ↦ ?_
  refine KeepsSlots.bind (keepsSlots_resetCounter _) fun _ ↦ ?_
  refine KeepsSlots.bind (keepsSlots_resetCounter _) fun _ ↦ ?_
  refine KeepsSlots.bind (keepsSlots_resetCounter _) fun _ ↦ ?_
  refine KeepsSlots.bind (keepsSlots_resetCounter _) fun _ ↦ ?_
  exact keepsSlots_resetCounter _

end Steps

section Code

variable {τ : Type} [DecidableEq τ] {t : τ} {k : ℕ} {l : ThreadLocals} {inp : Inputs} {s : Shared τ}

/-- The scan takes the first terminated slot. -/
theorem reuseSlot_exec (slots : List ℕ) :
    ((∀ k ∈ slots, s.slots.state k ≠ .terminated) ∧ (reuseSlot t slots).exec s = (none, s)) ∨
      ∃ k ∈ slots, s.slots.state k = .terminated ∧
        ((reuseSlot t slots).exec s).1 = some k ∧
        ((reuseSlot t slots).exec s).2.slots = s.slots.set k .uninitialized := by
  induction slots with
  | nil => exact .inl ⟨fun _ hk ↦ absurd hk List.not_mem_nil, rfl⟩
  | cons slot slots ih =>
    simp only [reuseSlot, Program.exec_bind, loadState, Program.exec_load]
    by_cases hstate : (s.threads slot).state = .terminated
    · refine .inr ⟨slot, List.mem_cons_self, hstate, ?_⟩
      simp only [hstate, if_true, compareExchangeState, Program.exec_bind, Program.exec_rmw]
      refine ⟨rfl, ?_⟩
      rw [Program.pure_eq, Program.exec_done, keepsSlots_resetStatistics]
      exact slots_setStats s slot _
    · simp only [hstate, if_false]
      rcases ih with ⟨hnone, hexec⟩ | ⟨k, hk, hrest⟩
      · refine .inl ⟨fun k hk ↦ ?_, hexec⟩
        rcases List.mem_cons.mp hk with rfl | hk
        · exact hstate
        · exact hnone k hk
      · exact .inr ⟨k, List.mem_cons_of_mem _ hk, hrest⟩

/-- `allocate_slot` does what `Allocates` says. -/
theorem allocateSlot_allocates (t : τ) (s : Shared τ) :
    Allocates s.slots ((allocateSlot t).exec s).1 ((allocateSlot t).exec s).2.slots := by
  simp only [allocateSlot, loadNextSlot, Program.exec_bind, Program.exec_load]
  rcases reuseSlot_exec (t := t) (s := s) (List.range (min s.nextSlot maxThreads)) with
    ⟨hnone, hexec⟩ | ⟨k, hk, hstate, hresult, hslots⟩
  · have hnone' : ∀ k < min s.slots.next maxThreads, s.slots.state k ≠ .terminated :=
      fun k hk ↦ hnone k (List.mem_range.mpr hk)
    rw [hexec]
    by_cases hlt : s.nextSlot < maxThreads
    · simp only [fetchAddNextSlot, Program.exec_bind, Program.exec_rmw, hlt, if_true]
      exact .fresh hnone' hlt
    · simp only [fetchAddNextSlot, fetchSubNextSlot, Program.exec_bind, Program.exec_rmw, hlt,
        if_false, Program.exec_store]
      exact .full hnone' (not_lt.mp hlt)
  · rw [hresult]
    simp only [Program.pure_eq, Program.exec_done]
    rw [hslots]
    exact .reuse (List.mem_range.mp hk) hstate

/-- A thread without a slot that obtains one makes it active. -/
theorem initializeThread_exec_some (inp : Inputs) (hslot : l.threadSlot = none)
    (hk : ((allocateSlot t).exec s).1 = some k) :
    (((initializeThread t inp).run l).exec s).1 = (some k, l.enter k inp.initTsc) ∧
      (((initializeThread t inp).run l).exec s).2.slots
        = ((allocateSlot t).exec s).2.slots.set k .active := by
  simp only [initializeThread, hslot, ThreadM.run_bind, ThreadM.run_get, Program.done_bind,
    ThreadM.run_lift, bind_assoc, Program.exec_bind, hk, ThreadM.run_modify, ThreadM.run_pure,
    Program.exec_done, true_and]
  rw [storeActive_slots, keepsSlots_storeLastKnownTsc, keepsSlots_storeStartTsc,
    keepsSlots_storeThreadId]

theorem initializeThread_exec_none (hslot : l.threadSlot = none)
    (hnone : ((allocateSlot t).exec s).1 = none) :
    ((initializeThread t inp).run l).exec s = ((none, l), ((allocateSlot t).exec s).2) := by
  simp only [initializeThread, hslot, ThreadM.run_bind, ThreadM.run_get, Program.done_bind,
    ThreadM.run_lift, bind_assoc, Program.exec_bind, hnone, ThreadM.run_pure, Program.exec_done]

/-- A thread that ends gives up its slot. -/
theorem threadCleanup_exec (inp : Inputs) (hslot : l.threadSlot = some k) (hk : k < maxThreads) :
    (((threadCleanup t inp).run l).exec s).1 = ((), l) ∧
      (((threadCleanup t inp).run l).exec s).2.slots = s.slots.set k .terminated := by
  simp only [threadCleanup, hslot, hk, ThreadM.run_bind, ThreadM.run_get, Program.done_bind,
    if_true]
  split
  · simp only [ThreadM.run_bind, ThreadM.run_lift, bind_assoc, Program.exec_bind, Program.done_bind,
      Program.exec_done, true_and]
    rw [storeTerminated_slots, keepsSlots_storeLastKnownTsc, keepsSlots_account]
  · simp only [ThreadM.run_bind, ThreadM.run_lift, bind_assoc, Program.exec_bind, Program.done_bind,
      Program.exec_done, true_and]
    rw [storeTerminated_slots, keepsSlots_storeLastKnownTsc]

end Code

/-! ## Occupied slots -/

/-- The active slots are those that are held. -/
structure Occupied {τ : Type} (v : SlotStates) (holds : τ → Option ℕ) : Prop where
  next_le : v.next ≤ maxThreads
  /-- A slot that has been taken is active or terminated. -/
  used : ∀ k < v.next, v.state k ≠ .uninitialized
  fresh : ∀ k, v.next ≤ k → v.state k = .uninitialized
  active_iff : ∀ k, v.state k = .active ↔ ∃ t, holds t = some k
  holds_inj : ∀ t u k, holds t = some k → holds u = some k → t = u

/-- The active slots of the array. -/
def SlotStates.active (v : SlotStates) : Finset ℕ :=
  (Finset.range maxThreads).filter fun k ↦ v.state k = .active

namespace Occupied

variable {τ : Type} {t : τ} {k : ℕ} {v v' : SlotStates} {holds : τ → Option ℕ}

theorem lt_next (h : Occupied v holds) (hk : v.state k = .active) : k < v.next := by
  by_contra hlt
  rw [h.fresh k (not_lt.mp hlt)] at hk
  exact absurd hk ThreadState.noConfusion

theorem lt_maxThreads (h : Occupied v holds) (hk : v.state k = .active) : k < maxThreads :=
  (h.lt_next hk).trans_le h.next_le

/-- Nobody has a slot at first. -/
theorem new : Occupied ⟨fun _ ↦ .uninitialized, 0⟩ fun _ : τ ↦ none where
  next_le := Nat.zero_le _
  used k hk := absurd hk (Nat.not_lt_zero k)
  fresh _ _ := rfl
  active_iff k := iff_of_false ThreadState.noConfusion fun ⟨_, h⟩ ↦ Option.some_ne_none k h.symm
  holds_inj _ _ k h := absurd h.symm (Option.some_ne_none k)

variable [DecidableEq τ]

/-- A slot that neither was nor is the thread's has the holder it had. -/
theorem update_eq_some_iff {slot : Option ℕ} {u : τ} {j : ℕ} (hbefore : holds t ≠ some j)
    (hafter : slot ≠ some j) : Function.update holds t slot u = some j ↔ holds u = some j := by
  by_cases hut : u = t
  · rw [hut, Function.update_self]
    exact iff_of_false hafter hbefore
  · rw [Function.update_of_ne hut]

/-- A thread may take any slot that is not active, if this leaves no gap. -/
theorem take (h : Occupied v holds) (hfree : holds t = none) (hk : v.state k ≠ .active) {next : ℕ}
    (hle : next ≤ maxThreads) (hnext : ∀ j, j < next ↔ j < v.next ∨ j = k) :
    Occupied ⟨Function.update v.state k .active, next⟩ (Function.update holds t (some k)) := by
  have hunheld : ∀ u, holds u ≠ some k := fun u hu ↦ hk ((h.active_iff k).mpr ⟨u, hu⟩)
  refine ⟨hle, fun j hj ↦ ?_, fun j hj ↦ ?_, fun j ↦ ?_, fun u w j hu hw ↦ ?_⟩
  · change Function.update v.state k .active j ≠ .uninitialized
    by_cases hjk : j = k
    · rw [hjk, Function.update_self]
      exact ThreadState.noConfusion
    · rw [Function.update_of_ne hjk]
      exact h.used j (((hnext j).mp hj).resolve_right hjk)
  · change Function.update v.state k .active j = .uninitialized
    obtain ⟨hge, hjk⟩ := not_or.mp (mt (hnext j).mpr (not_lt.mpr hj))
    rw [Function.update_of_ne hjk]
    exact h.fresh j (not_lt.mp hge)
  · change Function.update v.state k .active j = .active ↔ _
    by_cases hjk : j = k
    · rw [hjk, Function.update_self]
      exact iff_of_true rfl ⟨t, Function.update_self ..⟩
    · have hbefore : holds t ≠ some j := hfree ▸ (Option.some_ne_none j).symm
      rw [Function.update_of_ne hjk, h.active_iff]
      exact exists_congr fun u ↦
        (update_eq_some_iff hbefore fun heq ↦ hjk (Option.some.inj heq).symm).symm
  · -- nobody else holds the slot that has just been taken
    by_cases hut : u = t <;> by_cases hwt : w = t
    · rw [hut, hwt]
    · rw [hut, Function.update_self] at hu
      rw [Function.update_of_ne hwt, ← hu] at hw
      exact absurd hw (hunheld w)
    · rw [hwt, Function.update_self] at hw
      rw [Function.update_of_ne hut, ← hw] at hu
      exact absurd hu (hunheld u)
    · rw [Function.update_of_ne hut] at hu
      rw [Function.update_of_ne hwt] at hw
      exact h.holds_inj u w j hu hw

/-- A thread without a slot takes the one it is allocated. -/
theorem obtain (h : Occupied v holds) (hfree : holds t = none) (ha : Allocates v (some k) v') :
    Occupied (v'.set k .active) (Function.update holds t (some k)) := by
  cases ha with
  | reuse hk hstate =>
    have hnotActive : v.state k ≠ .active := by
      rw [hstate]
      exact ThreadState.noConfusion
    have htake := h.take hfree hnotActive h.next_le fun j ↦
      (or_iff_left_of_imp fun hj ↦ hj ▸ (lt_min_iff.mp hk).1).symm
    rwa [SlotStates.set, SlotStates.set, Function.update_idem]
  | fresh hnone hlt =>
    have hnotActive : v.state v.next ≠ .active := by
      rw [h.fresh v.next le_rfl]
      exact ThreadState.noConfusion
    exact h.take hfree hnotActive hlt fun j ↦ Nat.lt_succ_iff_lt_or_eq

/-- A thread that gives up its slot leaves it terminated. -/
theorem release (h : Occupied v holds) (hk : holds t = some k) :
    Occupied (v.set k .terminated) (Function.update holds t none) := by
  have hlt := h.lt_next ((h.active_iff k).mpr ⟨t, hk⟩)
  have hold : ∀ {u j}, Function.update holds t none u = some j → u ≠ t ∧ holds u = some j := by
    intro u j hu
    by_cases hut : u = t
    · rw [hut, Function.update_self] at hu
      exact absurd hu.symm (Option.some_ne_none j)
    · exact ⟨hut, by rwa [Function.update_of_ne hut] at hu⟩
  refine ⟨h.next_le, fun j hj ↦ ?_, fun j hj ↦ ?_, fun j ↦ ?_, fun u w j hu hw ↦ ?_⟩
  · change Function.update v.state k .terminated j ≠ .uninitialized
    by_cases hjk : j = k
    · rw [hjk, Function.update_self]
      exact ThreadState.noConfusion
    · rw [Function.update_of_ne hjk]
      exact h.used j hj
  · change Function.update v.state k .terminated j = .uninitialized
    have hjk : j ≠ k := fun heq ↦ absurd hlt (not_lt.mpr (heq ▸ hj))
    rw [Function.update_of_ne hjk]
    exact h.fresh j hj
  · change Function.update v.state k .terminated j = .active ↔ _
    by_cases hjk : j = k
    · rw [hjk, Function.update_self]
      refine iff_of_false ThreadState.noConfusion fun ⟨u, hu⟩ ↦ ?_
      obtain ⟨hut, hu⟩ := hold hu
      exact hut (h.holds_inj u t k hu hk)
    · have hbefore : holds t ≠ some j := hk ▸ fun heq ↦ hjk (Option.some.inj heq).symm
      rw [Function.update_of_ne hjk, h.active_iff]
      exact exists_congr fun u ↦
        (update_eq_some_iff hbefore (Option.some_ne_none j).symm).symm
  · exact h.holds_inj u w j (hold hu).2 (hold hw).2

end Occupied

/-! ## Histories -/

/-- What happens in a history in which no two calls overlap. -/
inductive LifeEvent (τ : Type) where
  /-- The thread calls `initialize_thread`. -/
  | starts (t : τ) (inp : Inputs)
  /-- The thread calls `thread_cleanup`, unless it has given up a slot before. -/
  | ends (t : τ) (inp : Inputs)

/-- The call of the system. -/
def LifeEvent.call {τ : Type} : LifeEvent τ → τ × Call × Inputs
  | .starts t inp => (t, .init, inp)
  | .ends t inp => (t, .cleanup, inp)

/-- The slot the thread has been given and has not given up. -/
def Life.slot (life : Life) : Option ℕ := if life.cleanedUp then none else life.locals.threadSlot

section Histories

variable {τ : Type} [DecidableEq τ] {t : τ} {inp : Inputs} {c : Turns τ (Shared τ) Life}

/-- The registry and the threads after a history. -/
def history (events : List (LifeEvent τ)) : Turns τ (Shared τ) Life :=
  system.turns ⟨.new, fun _ ↦ .new⟩ (events.map LifeEvent.call)

/-- A history is a run of the system. -/
theorem exists_run_history (events : List (LifeEvent τ)) :
    ∃ ms, system.run start ms = (history events).config :=
  system.exists_run_turns ⟨.new, fun _ ↦ .new⟩ _

/-- The invariant between the calls of a history. -/
structure Orderly (c : Turns τ (Shared τ) Life) : Prop where
  occupied : Occupied c.shared.slots fun t ↦ (c.locals t).slot
  /-- Only a thread that has been given a slot gives one up. -/
  cleanedUp : ∀ t, (c.locals t).locals.threadSlot = none → (c.locals t).cleanedUp = false

theorem Orderly.update (h : Orderly c) {s : Shared τ} {life : Life}
    (hocc : Occupied s.slots (Function.update (fun u ↦ (c.locals u).slot) t life.slot))
    (hcleaned : life.locals.threadSlot = none → life.cleanedUp = false) :
    Orderly ⟨s, Function.update c.locals t life⟩ := by
  refine ⟨?_, fun u ↦ ?_⟩
  · change Occupied s.slots (Life.slot ∘ Function.update c.locals t life)
    rw [Function.comp_update]
    exact hocc
  · change (Function.update c.locals t life u).locals.threadSlot = none →
      (Function.update c.locals t life u).cleanedUp = false
    by_cases hut : u = t
    · rw [hut, Function.update_self]
      exact hcleaned
    · rw [Function.update_of_ne hut]
      exact h.cleanedUp u

/-- A call that leaves the registry and the thread's slot as they are. -/
theorem Orderly.update_same (h : Orderly c) {life : Life} (hslot : life.slot = (c.locals t).slot)
    (hcleaned : life.locals.threadSlot = none → life.cleanedUp = false) :
    Orderly ⟨c.shared, Function.update c.locals t life⟩ := by
  refine h.update ?_ hcleaned
  rw [hslot, Function.update_eq_self t fun u ↦ (c.locals u).slot]
  exact h.occupied

/-- What a call of the system does when nothing happens in between. -/
theorem system_turn {call : Call × Inputs} (hall : call.1.permitted (c.locals t) = true) :
    system.turn c (t, call)
      = ⟨(((call.1.code t call.2).run (c.locals t).locals).exec c.shared).2,
          Function.update c.locals t ((c.locals t).next call
            (((call.1.code t call.2).run (c.locals t).locals).exec c.shared).1.2)⟩ := by
  rw [Service.turn_of_allowed system hall, system, Program.exec_bind]
  rfl

theorem init_exec (l : ThreadLocals) (s : Shared τ) :
    ((Call.init.code t inp).run l).exec s
      = (((), (((initializeThread t inp).run l).exec s).1.2),
          (((initializeThread t inp).run l).exec s).2) := by
  simp only [Call.code, ThreadM.run_bind, Program.exec_bind, ThreadM.run_pure, Program.exec_done]

theorem Life.slot_of_live {life : Life} (h : life.cleanedUp = false) :
    life.slot = life.locals.threadSlot := by
  rw [slot, h]
  rfl

/-- A start gives the thread a slot, unless it has one already or there is none. -/
theorem Orderly.starts (h : Orderly c) (t : τ) (inp : Inputs) :
    Orderly (system.turn c (t, .init, inp)) := by
  rw [system_turn rfl, init_exec]
  cases hslot : (c.locals t).locals.threadSlot with
  | some k =>
    -- the slot on record is returned, also after the thread has given it up
    rw [initializeThread_run_some hslot, Program.exec_done]
    refine h.update_same ?_ fun hnone ↦ ?_
    · simp [Life.slot, Life.next]
    · exact absurd (hslot.symm.trans hnone) (Option.some_ne_none k)
  | none =>
    have hcleaned := h.cleanedUp t hslot
    have hfree : (c.locals t).slot = none := (Life.slot_of_live hcleaned).trans hslot
    have halloc := allocateSlot_allocates t c.shared
    cases hresult : ((allocateSlot t).exec c.shared).1 with
    | some k =>
      obtain ⟨hentered, hslots⟩ := initializeThread_exec_some inp hslot hresult
      rw [hentered, Life.next_of_some hcleaned _ (k := k) rfl]
      refine h.update ?_ fun _ ↦ rfl
      rw [hslots]
      rw [hresult] at halloc
      exact h.occupied.obtain hfree halloc
    | none =>
      -- the increment has been taken back, and the next start of the thread tries again
      rw [hresult] at halloc
      rw [initializeThread_exec_none hslot hresult, Life.next_of_none hcleaned _ hslot]
      have hsame : (⟨(c.locals t).locals, false, (c.locals t).calls⟩ : Life) = c.locals t := by
        rw [← hcleaned]
      rw [hsame]
      refine h.update ?_ fun _ ↦ hcleaned
      rw [halloc.eq_of_none, Function.update_eq_self t fun u ↦ (c.locals u).slot]
      exact h.occupied

/-- An end gives up the slot of the thread, if it has one. -/
theorem Orderly.ends (h : Orderly c) (t : τ) (inp : Inputs) :
    Orderly (system.turn c (t, .cleanup, inp)) := by
  by_cases hall : Call.cleanup.permitted (c.locals t) = true
  · have hcleaned : (c.locals t).cleanedUp = false := by simpa [Call.permitted] using hall
    rw [system_turn hall]
    cases hslot : (c.locals t).locals.threadSlot with
    | none =>
      rw [Call.code, threadCleanup_run_none hslot, Program.exec_done,
        Life.next_of_none hcleaned _ hslot]
      refine h.update_same ?_ fun _ ↦ rfl
      rw [Life.slot_of_live hcleaned, Life.slot_of_live rfl]
    | some k =>
      have hholds : (c.locals t).slot = some k := (Life.slot_of_live hcleaned).trans hslot
      -- so the bound that the code checks holds
      have hk : k < maxThreads :=
        h.occupied.lt_maxThreads ((h.occupied.active_iff k).mpr ⟨t, hholds⟩)
      obtain ⟨hresult, hslots⟩ := threadCleanup_exec (t := t) (s := c.shared) inp hslot hk
      rw [Call.code, hresult, Life.next_of_some hcleaned _ hslot]
      refine h.update ?_ fun hnone ↦ ?_
      · rw [hslots]
        exact h.occupied.release hholds
      · exact absurd (hslot.symm.trans hnone) (Option.some_ne_none k)
  · rwa [Service.turn_of_refused system (k := (.cleanup, inp)) hall]

end Histories

end UnsafePerf.CpuCycle
