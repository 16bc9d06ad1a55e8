import UnsafePerf.Concurrency.Observer
import UnsafePerf.CpuCycle.ExitReport

/-!
# How the registry goes on

`Advances` is what any number of steps of any threads do to the registry. What a slot shows and what
resets have overwritten of it only grow together (`Shared.added`), a slot in use stays in use until it
is handed on, and the books only grow.

Only the additions need care: a counter that wrapped would show less than before. A counter does not
wrap as long as its total does not, since all that a counter shows is in the books
(`toNat_add_of_balanced`).

The calls are made of ten kinds of atomic operations, so a relation that these keep is kept by every
step of every call (`RegistryKeeps.system`).
-/

open Concurrency

namespace UnsafePerf.CpuCycle

variable {τ : Type}

/-! ## The relation -/

namespace Shared

/-- What resets have overwritten of a counter of one slot. -/
def overwritten (s : Shared τ) (k : ℕ) (c : Counter) : ℕ :=
  (s.history.discarded.map fun e ↦ if e.1 = k then discardedOf c e else 0).sum

/-- All that has ever been added to a counter of one slot. -/
def added (s : Shared τ) (k : ℕ) (c : Counter) : ℕ :=
  ((s.threads k).counters c).toNat + s.overwritten k c

end Shared

/-- The registry goes on. -/
structure Advances [Fintype τ] (s s' : Shared τ) : Prop where
  inv : Inv s → Inv s'
  granted : ∀ e ∈ s.history.granted, e ∈ s'.history.granted
  accounted : ∀ c, s.accountedTotal c ≤ s'.accountedTotal c
  discarded : s.history.discarded <+: s'.history.discarded
  /-- A slot in use stays in use, until it is handed on. -/
  state : ∀ k, (s.threads k).state ≠ .uninitialized →
    (∀ t, (t, k) ∈ s'.history.granted → (t, k) ∈ s.history.granted) →
    (s'.threads k).state ≠ .uninitialized
  /-- As long as no total is too large for a counter, nothing that was added is lost. -/
  added : (∀ c, s'.accountedTotal c < 2 ^ 64) → ∀ k c, s.added k c ≤ s'.added k c

namespace Advances

variable [Fintype τ] {s s' s'' : Shared τ}

theorem refl (s : Shared τ) : Advances s s :=
  ⟨id, fun _ h ↦ h, fun _ ↦ le_rfl, List.prefix_rfl, fun _ h _ ↦ h, fun _ _ _ ↦ le_rfl⟩

theorem trans (h : Advances s s') (h' : Advances s' s'') : Advances s s'' where
  inv := h'.inv ∘ h.inv
  granted e he := h'.granted e (h.granted e he)
  accounted c := (h.accounted c).trans (h'.accounted c)
  discarded := h.discarded.trans h'.discarded
  state k hk hnew := h'.state k (h.state k hk fun t ht ↦ hnew t (h'.granted _ ht))
    fun t ht ↦ h.granted _ (hnew t ht)
  added hlt k c := (h.added (fun c ↦ (h'.accounted c).trans_lt (hlt c)) k c).trans (h'.added hlt k c)

theorem overwritten (h : Advances s s') (k : ℕ) (c : Counter) :
    s.overwritten k c ≤ s'.overwritten k c := by
  obtain ⟨later, hlater⟩ := h.discarded
  rw [Shared.overwritten, Shared.overwritten, ← hlater, List.map_append, List.sum_append]
  exact Nat.le_add_right ..

/-- A step that leaves the books alone. -/
theorem of_books (hinv : Inv s → Inv s') (hgranted : ∀ e ∈ s.history.granted, e ∈ s'.history.granted)
    (haccounted : s'.history.accounted = s.history.accounted)
    (hdiscarded : s'.history.discarded = s.history.discarded)
    (hcounters : ∀ k, (s'.threads k).counters = (s.threads k).counters)
    (hstate : ∀ k, (s.threads k).state ≠ .uninitialized →
      (∀ t, (t, k) ∈ s'.history.granted → (t, k) ∈ s.history.granted) →
      (s'.threads k).state ≠ .uninitialized) : Advances s s' where
  inv := hinv
  granted := hgranted
  accounted c := by rw [Shared.accountedTotal, Shared.accountedTotal, haccounted]
  discarded := hdiscarded ▸ List.prefix_rfl
  state := hstate
  added _ k c := by
    rw [Shared.added, Shared.added, hcounters, Shared.overwritten, Shared.overwritten, hdiscarded]

end Advances

/-- Both states satisfy the invariant. -/
def BothInv [Fintype τ] (s s' : Shared τ) : Prop := Inv s ∧ Inv s'

theorem setStats_threads (s : Shared τ) (k : ℕ) (st : ThreadStats) (j : ℕ) :
    ((s.setStats k st).threads j) = if j = k then st else s.threads j := Function.update_apply ..

section Steps

variable [Fintype τ] {t : τ} {k : ℕ} {s s' : Shared τ}

/-- A step that keeps the counters of a slot and the books. Where it takes the slot out of use, the
slot is handed on. -/
theorem advances_of_slot {st : ThreadStats} (hok : BothInv s s')
    (hthreads : s'.threads = (s.setStats k st).threads)
    (hcounters : st.counters = (s.threads k).counters)
    (haccounted : s'.history.accounted = s.history.accounted)
    (hdiscarded : s'.history.discarded = s.history.discarded)
    (hgranted : ∀ e ∈ s.history.granted, e ∈ s'.history.granted)
    (hstate : (s.threads k).state ≠ .uninitialized →
      (∀ t, (t, k) ∈ s'.history.granted → (t, k) ∈ s.history.granted) →
      st.state ≠ .uninitialized) : Advances s s' := by
  refine .of_books (fun _ ↦ hok.2) hgranted haccounted hdiscarded (fun j ↦ ?_) fun j hj hnew ↦ ?_
  · rw [hthreads, setStats_threads]
    split
    · next h => rw [h, hcounters]
    · rfl
  · rw [hthreads, setStats_threads]
    split
    · next h =>
      subst h
      exact hstate hj hnew
    · exact hj

/-- A step that only counts. -/
theorem advances_of_threads (hok : BothInv s s') (hthreads : s'.threads = s.threads)
    (haccounted : s'.history.accounted = s.history.accounted)
    (hdiscarded : s'.history.discarded = s.history.discarded)
    (hgranted : ∀ e ∈ s.history.granted, e ∈ s'.history.granted) : Advances s s' :=
  .of_books (fun _ ↦ hok.2) hgranted haccounted hdiscarded (fun j ↦ by rw [hthreads])
    fun j hj _ ↦ by rwa [hthreads]

theorem steps_storeField {f : ThreadStats → ThreadStats}
    (hcounters : ∀ st, (f st).counters = st.counters) (hstate : ∀ st, (f st).state = st.state) :
    (storeField t k f).Steps BothInv Advances :=
  Program.steps_rmw fun s hok ↦
    advances_of_slot hok rfl (hcounters _) rfl rfl (fun _ h ↦ h) fun h _ ↦ by rwa [hstate]

theorem steps_storeActive : (storeActive t k).Steps BothInv Advances :=
  Program.steps_rmw fun s hok ↦
    advances_of_slot hok rfl rfl rfl rfl (fun _ h ↦ h) fun _ _ ↦ by simp

variable [DecidableEq τ]

theorem steps_storeTerminated : (storeTerminated t k).Steps BothInv Advances :=
  Program.steps_rmw fun s hok ↦
    advances_of_slot hok rfl rfl rfl rfl (fun _ h ↦ h) fun _ _ ↦ by simp

theorem steps_compareExchangeState : (compareExchangeState t k).Steps BothInv Advances := by
  refine Program.steps_rmw fun s hok ↦ ?_
  by_cases hterm : (s.threads k).state = .terminated
  · rw [if_pos hterm] at hok ⊢
    refine advances_of_slot hok rfl rfl rfl rfl (fun _ h ↦ List.mem_append_left _ h) fun _ hnew ↦ ?_
    -- the thread would have been given a slot before
    have hbefore := hnew t (List.mem_append_right _ (List.mem_singleton_self _))
    have hnodup := hok.2.granted_nodup
    simp only [Shared.grant, List.map_append, List.map_cons, List.map_nil] at hnodup
    exact absurd (List.mem_map_of_mem hbefore) (List.nodup_append.mp hnodup |>.2.2 t · t (by simp) rfl)
  · rw [if_neg hterm]
    exact .refl s

theorem steps_fetchAddNextSlot : (fetchAddNextSlot t).Steps BothInv Advances := by
  refine Program.steps_rmw fun s hok ↦ ?_
  by_cases hlt : s.nextSlot < maxThreads
  · simp only [if_pos hlt] at hok ⊢
    exact advances_of_threads hok rfl rfl rfl fun _ h ↦ List.mem_append_left _ h
  · simp only [if_neg hlt] at hok ⊢
    exact advances_of_threads hok rfl rfl rfl fun _ h ↦ h

theorem steps_fetchSubNextSlot : (fetchSubNextSlot t).Steps BothInv Advances :=
  Program.steps_rmw fun _ hok ↦ advances_of_threads hok rfl rfl rfl fun _ h ↦ h

omit [Fintype τ] [DecidableEq τ] in
theorem overwritten_noteDiscarded (s : Shared τ) (k : ℕ) (c : Counter) (j : ℕ) (c' : Counter) :
    (s.noteDiscarded k c).overwritten j c' = s.overwritten j c'
      + if j = k ∧ c' = c then ((s.threads k).counters c).toNat else 0 := by
  rw [Shared.overwritten, Shared.overwritten, Shared.noteDiscarded, List.map_append, List.sum_append,
    List.map_singleton, List.sum_singleton]
  by_cases hj : j = k
  · by_cases hc : c' = c
    · simp [hj, hc, Shared.discardedOf]
    · simp [hj, hc, Shared.discardedOf, Ne.symm hc]
  · simp [hj, Ne.symm hj]

omit [DecidableEq τ] in
/-- What a reset erases is recorded. -/
theorem steps_resetCounter (c : Counter) : (resetCounter t k c).Steps BothInv Advances := by
  refine Program.steps_rmw fun s hok ↦ ?_
  have hover : ∀ j c', ((s.noteDiscarded k c).setStats k ((s.threads k).clear c)).overwritten j c'
      = s.overwritten j c' + if j = k ∧ c' = c then ((s.threads k).counters c).toNat else 0 :=
    overwritten_noteDiscarded s k c
  refine ⟨fun _ ↦ hok.2, fun _ h ↦ h, fun _ ↦ le_rfl, List.prefix_append .., fun j hj _ ↦ ?_,
    fun _ j c' ↦ ?_⟩
  · rw [setStats_threads]
    split
    · next h => exact h ▸ hj
    · exact hj
  · rw [Shared.added, Shared.added, hover, setStats_threads]
    by_cases hj : j = k
    · subst hj
      by_cases hc : c' = c
      · subst hc
        simp [ThreadStats.clear_counters_self, add_comm]
      · simp [ThreadStats.clear_counters_of_ne _ hc, hc]
    · simp [hj, Shared.noteDiscarded]

omit [Fintype τ] [DecidableEq τ] in
theorem slotTotal_setStats_of_le (s : Shared τ) (hk : maxThreads ≤ k) (st : ThreadStats)
    (c : Counter) : (s.setStats k st).slotTotal c = s.slotTotal c := by
  refine Finset.sum_congr rfl fun j hj ↦ ?_
  have hne : j ≠ k := by
    have := Finset.mem_range.mp hj
    omega
  rw [setStats_threads, if_neg hne]

/-- A counter does not wrap, as long as its total does not. -/
theorem toNat_add_of_balanced {c : Counter} {d : UInt64}
    (hok : BothInv s ((s.noteAccounted t c d).setStats k ((s.threads k).add c d)))
    (hlt : s.accountedTotal c + d.toNat < 2 ^ 64) :
    (((s.threads k).add c d).counters c).toNat = ((s.threads k).counters c).toNat + d.toNat := by
  have haccounted : ((s.noteAccounted t c d).setStats k ((s.threads k).add c d)).accountedTotal c
      = s.accountedTotal c + d.toNat := by
    refine (s.accountedTotal_noteAccounted t c c d).trans ?_
    rw [if_pos rfl]
  have hbefore := hok.1.balanced c (by omega)
  have hafter := hok.2.balanced c (by omega)
  have hdiscarded : ((s.noteAccounted t c d).setStats k ((s.threads k).add c d)).discardedTotal c
      = s.discardedTotal c := rfl
  by_cases hk : k < maxThreads
  · have hslot := s.slotTotal_update
      ((s.noteAccounted t c d).setStats k ((s.threads k).add c d)) hk rfl c
    omega
  · have hslot : ((s.noteAccounted t c d).setStats k ((s.threads k).add c d)).slotTotal c
        = s.slotTotal c := slotTotal_setStats_of_le _ (not_lt.mp hk) _ c
    have hzero : d.toNat = 0 := by omega
    rw [ThreadStats.add_counters_self, UInt64.toNat_add, hzero, add_zero,
      Nat.mod_eq_of_lt (UInt64.toNat_lt _)]

theorem steps_fetchAddCounter (c : Counter) (d : UInt64) :
    (fetchAddCounter t k c d).Steps BothInv Advances := by
  refine Program.steps_rmw fun s hok ↦ ?_
  have haccounted : ∀ c',
      ((s.noteAccounted t c d).setStats k ((s.threads k).add c d)).accountedTotal c'
        = s.accountedTotal c' + if c' = c then d.toNat else 0 :=
    fun c' ↦ s.accountedTotal_noteAccounted t c c' d
  refine ⟨fun _ ↦ hok.2, fun _ h ↦ h, fun c' ↦ ?_, List.prefix_rfl, fun j hj _ ↦ ?_,
    fun hlt j c' ↦ Nat.add_le_add_right ?_ _⟩
  · change _ ≤ ((s.noteAccounted t c d).setStats k ((s.threads k).add c d)).accountedTotal c'
    rw [haccounted]
    exact Nat.le_add_right ..
  · change (((s.noteAccounted t c d).setStats k ((s.threads k).add c d)).threads j).state ≠ _
    rw [setStats_threads]
    split
    · next h => exact h ▸ hj
    · exact hj
  · change _ ≤ ((((s.noteAccounted t c d).setStats k ((s.threads k).add c d)).threads j).counters
      c').toNat
    rw [setStats_threads]
    split
    · next h =>
      subst h
      by_cases hc : c' = c
      · subst hc
        have htotal : s.accountedTotal c' + d.toNat < 2 ^ 64 := by
          have := (haccounted c').symm.trans_lt (hlt c')
          rwa [if_pos rfl] at this
        rw [toNat_add_of_balanced hok htotal]
        exact Nat.le_add_right ..
      · rw [ThreadStats.add_counters_of_ne _ _ hc]
    · exact le_rfl

end Steps

/-! ## Every call -/

/-- The atomic operations of the registry keep the relation. -/
structure RegistryKeeps [DecidableEq τ] (ok R : Shared τ → Shared τ → Prop) : Prop where
  refl : ∀ s, R s s
  storeId : ∀ {t k} v, (storeField t k fun st ↦ { st with threadId := v }).Steps ok R
  storeStartTsc : ∀ {t k} v, (storeField t k fun st ↦ { st with startTsc := v }).Steps ok R
  storeLastKnownTsc : ∀ {t k} v, (storeField t k fun st ↦ { st with lastKnownTsc := v }).Steps ok R
  storeActive : ∀ {t k}, (storeActive t k).Steps ok R
  storeTerminated : ∀ {t k}, (storeTerminated t k).Steps ok R
  compareExchangeState : ∀ {t k}, (compareExchangeState t k).Steps ok R
  fetchAddNextSlot : ∀ {t}, (fetchAddNextSlot t).Steps ok R
  fetchSubNextSlot : ∀ {t}, (fetchSubNextSlot t).Steps ok R
  resetCounter : ∀ {t k} c, (resetCounter t k c).Steps ok R
  fetchAddCounter : ∀ {t k} c d, (fetchAddCounter t k c d).Steps ok R

theorem registryKeeps_advances [Fintype τ] [DecidableEq τ] :
    RegistryKeeps (τ := τ) BothInv Advances where
  refl := Advances.refl
  storeId _ := by refine steps_storeField ?_ ?_ <;> exact fun st ↦ rfl
  storeStartTsc _ := by refine steps_storeField ?_ ?_ <;> exact fun st ↦ rfl
  storeLastKnownTsc _ := by refine steps_storeField ?_ ?_ <;> exact fun st ↦ rfl
  storeActive := steps_storeActive
  storeTerminated := steps_storeTerminated
  compareExchangeState := steps_compareExchangeState
  fetchAddNextSlot := steps_fetchAddNextSlot
  fetchSubNextSlot := steps_fetchSubNextSlot
  resetCounter := steps_resetCounter
  fetchAddCounter := steps_fetchAddCounter

namespace RegistryKeeps

variable [DecidableEq τ] {ok R : Shared τ → Shared τ → Prop} (hR : RegistryKeeps ok R) {t : τ}
  {k : ℕ}

include hR

theorem load {α : Type} (f : Shared τ → α) : (Program.load f).Steps ok R :=
  Program.steps_load hR.refl f

theorem resetStatistics : (resetStatistics t k).Steps ok R := by
  refine (hR.storeId 0).bind fun _ ↦ (hR.storeStartTsc 0).bind fun _ ↦ ?_
  refine (hR.storeLastKnownTsc 0).bind fun _ ↦ ?_
  refine (hR.resetCounter _).bind fun _ ↦ (hR.resetCounter _).bind fun _ ↦ ?_
  refine (hR.resetCounter _).bind fun _ ↦ (hR.resetCounter _).bind fun _ ↦ ?_
  exact (hR.resetCounter _).bind fun _ ↦ hR.resetCounter _

theorem reuseSlot (slots : List ℕ) : (reuseSlot t slots).Steps ok R := by
  induction slots with
  | nil => exact Program.steps_done _
  | cons slot slots ih =>
    refine (hR.load _).bind fun state ↦ ?_
    by_cases hterm : state = .terminated
    · rw [if_pos hterm]
      refine hR.compareExchangeState.bind fun swapped ↦ ?_
      rcases swapped with _ | _
      · exact ih
      · exact hR.resetStatistics.bind fun _ ↦ Program.steps_done _
    · rw [if_neg hterm]
      exact ih

theorem allocateSlot : (allocateSlot t).Steps ok R := by
  refine (hR.load _).bind fun currentSlots ↦ ?_
  refine (hR.reuseSlot _).bind fun reused ↦ ?_
  rcases reused with _ | slot
  · refine hR.fetchAddNextSlot.bind fun slot ↦ ?_
    by_cases hlt : slot < maxThreads
    · rw [if_pos hlt]
      exact Program.steps_done _
    · rw [if_neg hlt]
      exact hR.fetchSubNextSlot.bind fun _ ↦ Program.steps_done _
  · exact Program.steps_done _

theorem account (frame : ContextFrame) (tsc : UInt64) :
    (account t k frame tsc).Steps ok R := by
  rw [CpuCycle.account]
  split
  · exact hR.fetchAddCounter _ _
  · exact Program.steps_done _

theorem initializeThread (inp : Inputs) :
    (initializeThread t inp).Steps ok R := by
  refine ThreadM.steps_get.bind fun l ↦ ?_
  rcases l.threadSlot with _ | slot
  · refine (ThreadM.steps_lift hR.allocateSlot).bind fun allocated ↦ ?_
    rcases allocated with _ | slot
    · exact ThreadM.steps_pure _
    · refine (ThreadM.steps_lift (hR.storeId _)).bind fun _ ↦ ?_
      refine (ThreadM.steps_lift (hR.storeStartTsc _)).bind fun _ ↦ ?_
      refine (ThreadM.steps_lift (hR.storeLastKnownTsc _)).bind fun _ ↦ ?_
      refine (ThreadM.steps_lift hR.storeActive).bind fun _ ↦ ?_
      exact (ThreadM.steps_modify _).bind fun _ ↦ ThreadM.steps_pure _
  · exact ThreadM.steps_pure _

theorem slotOrInitialize (inp : Inputs) :
    (slotOrInitialize t inp).Steps ok R := by
  refine ThreadM.steps_get.bind fun l ↦ ?_
  rcases l.threadSlot with _ | slot
  · exact hR.initializeThread inp
  · exact ThreadM.steps_pure _

theorem transitionState (inp : Inputs) (newState : ExecutionState) :
    (transitionState t inp newState).Steps ok R := by
  refine (hR.slotOrInitialize inp).bind fun slot ↦ ?_
  rcases slot with _ | slot
  · exact ThreadM.steps_pure _
  · refine ThreadM.steps_get.bind fun l ↦ ?_
    split
    · exact ThreadM.steps_pure _
    · refine (ThreadM.steps_lift (hR.account _ _)).bind fun _ ↦ ?_
      exact (ThreadM.steps_set _).bind fun _ ↦ ThreadM.steps_pure _

theorem pushContext (inp : Inputs) (newState : ExecutionState) :
    (pushContext t inp newState).Steps ok R := by
  refine (hR.slotOrInitialize inp).bind fun slot ↦ ?_
  rcases slot with _ | slot
  · exact ThreadM.steps_pure _
  · refine ThreadM.steps_get.bind fun l ↦ ?_
    split
    · exact ThreadM.steps_pure _
    · next h =>
      have hset : ∀ _ : PUnit, (do
          set (l.push (lt_of_not_ge h) ⟨newState, inp.tsc⟩)
          return .ok () : ThreadM ThreadLocals (Shared τ) Outcome).Steps ok R :=
        fun _ ↦ (ThreadM.steps_set _).bind fun _ ↦ ThreadM.steps_pure _
      split
      · exact (ThreadM.steps_lift (hR.account _ _)).bind hset
      · exact (ThreadM.steps_pure ⟨⟩).bind hset

theorem popContext (inp : Inputs) : (popContext t inp).Steps ok R := by
  refine ThreadM.steps_get.bind fun l ↦ ?_
  rcases l.threadSlot with _ | slot
  · exact ThreadM.steps_pure _
  · dsimp only
    split
    · exact ThreadM.steps_pure _
    · refine (ThreadM.steps_lift (hR.account _ _)).bind fun _ ↦ ?_
      exact (ThreadM.steps_set _).bind fun _ ↦ ThreadM.steps_pure _

theorem threadCleanup (inp : Inputs) : (threadCleanup t inp).Steps ok R := by
  refine ThreadM.steps_get.bind fun l ↦ ?_
  rcases l.threadSlot with _ | slot
  · exact ThreadM.steps_pure _
  · dsimp only
    split
    · have hfinish : ∀ _ : PUnit, (do
          storeField t slot fun st ↦ { st with lastKnownTsc := inp.tsc }
          CpuCycle.storeTerminated t slot : ThreadM ThreadLocals (Shared τ) Unit).Steps ok R :=
        fun _ ↦ (ThreadM.steps_lift (hR.storeLastKnownTsc _)).bind fun _ ↦
          ThreadM.steps_lift hR.storeTerminated
      split
      · exact (ThreadM.steps_lift (hR.account _ _)).bind hfinish
      · exact (ThreadM.steps_pure ⟨⟩).bind hfinish
    · exact ThreadM.steps_pure _

theorem hook (h : Hook) (inp : Inputs) : (h.code t inp).Steps ok R := by
  rcases h with _ | _ | _ | _
  · refine ThreadM.Steps.bind ?_ fun _ ↦ ThreadM.steps_pure _
    refine (hR.slotOrInitialize inp).bind fun slot ↦ ?_
    rcases slot with _ | slot
    · exact ThreadM.steps_pure _
    · refine ThreadM.steps_get.bind fun l ↦ (hR.transitionState inp _).bind fun outcome ↦ ?_
      rcases outcome with _ | _
      · exact (ThreadM.steps_pure _).bind fun _ ↦ ThreadM.steps_pure _
      · exact (ThreadM.steps_lift (hR.fetchAddCounter _ _)).bind fun _ ↦ ThreadM.steps_pure _
  · refine ThreadM.steps_get.bind fun l ↦ ?_
    exact (hR.transitionState inp _).bind fun _ ↦ ThreadM.steps_pure _
  · refine ThreadM.Steps.bind ?_ fun _ ↦ ThreadM.steps_pure _
    refine (hR.slotOrInitialize inp).bind fun slot ↦ ?_
    rcases slot with _ | slot
    · exact ThreadM.steps_pure _
    · refine ThreadM.steps_get.bind fun l ↦ (hR.pushContext inp _).bind fun outcome ↦ ?_
      rcases outcome with _ | _
      · exact (ThreadM.steps_pure _).bind fun _ ↦ ThreadM.steps_pure _
      · exact (ThreadM.steps_lift (hR.fetchAddCounter _ _)).bind fun _ ↦ ThreadM.steps_pure _
  · exact (hR.popContext inp).bind fun _ ↦ ThreadM.steps_pure _

theorem system (call : Call × Inputs) (life : Life) :
    ((system (τ := τ)).code t call life).Steps ok R := by
  obtain ⟨call, inp⟩ := call
  refine Program.Steps.bind ?_ fun _ ↦ Program.steps_done _
  rcases call with _ | h | _
  · exact (hR.initializeThread inp).bind (fun _ ↦ ThreadM.steps_pure _) _
  · exact hR.hook h inp _
  · exact hR.threadCleanup inp _

end RegistryKeeps

end UnsafePerf.CpuCycle
