import UnsafePerf.Concurrency.Assuming
import UnsafePerf.Concurrency.Budget
import UnsafePerf.UnsafeCounter.OneShot
import UnsafePerf.UnsafeCounter.Steps

/-!
# A report from a running program

`dump_stats` reads one counter after the other while other threads may still be recording. What it
writes need not be the figures of any one moment. But no figure lies outside what the tracker showed
when the report was begun and what it shows when it is read, and the figures of functions fit
together: a function is marked as seen only after its call has been counted, so no report shows more
functions than calls.

The argument goes in three rounds over the same runs. In a run whose calls add less than `2 ^ 64` to
every counter no counter wraps (`advances_run`). So a function that is marked as seen has a call on
record from then on (`counted_run`). And so the values that a report collects lie between the state
it was begun in and the present one (`told_run`).
-/

open Concurrency

namespace UnsafePerf.UnsafeCounter

/-! ## What a step may do -/

/-- What a step does once the table is in place: nothing is taken back but what wraps. -/
structure Grows (s s' : Shared) : Prop where
  initialized : s'.metadataInitialized = s.metadataInitialized
  metadata : s'.metadata = s.metadata
  metadataCount : s'.metadataCount = s.metadataCount
  seen : ∀ i, Bitset.contains s.functionsSeen i = true → Bitset.contains s'.functionsSeen i = true

theorem Grows.refl (s : Shared) : Grows s s := ⟨rfl, rfl, rfl, fun _ h ↦ h⟩

/-- No counter decreases. -/
structure Advances (s s' : Shared) : Prop extends Grows s s' where
  instructions : ∀ c, s.instructions c ≤ s'.instructions c
  calls : ∀ i < maxFunctions, s.functionCalls i ≤ s'.functionCalls i

theorem Advances.refl (s : Shared) : Advances s s :=
  ⟨.refl s, fun _ ↦ UInt64.le_refl _, fun _ _ ↦ UInt64.le_refl _⟩

theorem Advances.trans {s₁ s₂ s₃ : Shared} (h : Advances s₁ s₂) (h' : Advances s₂ s₃) :
    Advances s₁ s₃ where
  initialized := h'.initialized.trans h.initialized
  metadata := h'.metadata.trans h.metadata
  metadataCount := h'.metadataCount.trans h.metadataCount
  seen i hi := h'.seen i (h.seen i hi)
  instructions c := UInt64.le_trans (h.instructions c) (h'.instructions c)
  calls i hi := UInt64.le_trans (h.calls i hi) (h'.calls i hi)

theorem advances_fault (s : Shared) (b : Bool) : Advances s { s with fault := b } :=
  ⟨⟨rfl, rfl, rfl, fun _ h ↦ h⟩, fun _ ↦ UInt64.le_refl _, fun _ _ ↦ UInt64.le_refl _⟩

/-- A function that is marked as seen has a call on record. -/
def Counted (s : Shared) : Prop :=
  ∀ i < maxFunctions, Bitset.contains s.functionsSeen i = true → 0 < s.functionCalls i

/-! ## What the calls add -/

/-- What a call adds to an instruction counter. -/
def Op.amount (c : InstCounter) : Op → ℕ
  | .recordBlock b => b.amount c
  | .initMetadata _ | .recordFunction _ | .dumpStats | .cleanup => 0

/-- The calls of functions that a call records. -/
def Op.calls : Op → ℕ
  | .recordFunction _ => 1
  | .initMetadata _ | .recordBlock _ | .dumpStats | .cleanup => 0

section Instructions

variable (c : InstCounter)

theorem spends_addInst (c' : InstCounter) (d : UInt64) :
    (Program.store (Shared.addInst c' d)).Spends (fun s ↦ (s.instructions c).toNat) (2 ^ 64)
      (if c' = c then d.toNat else 0) := by
  refine Program.spends_rmw fun s hlt ↦ ?_
  change (Function.update s.instructions c' (s.instructions c' + d) c).toNat = _
  by_cases hc : c' = c
  · subst hc
    rw [if_pos rfl] at hlt ⊢
    rw [Function.update_self, UInt64.toNat_add, Nat.mod_eq_of_lt hlt]
  · rw [Function.update_of_ne (Ne.symm hc), if_neg hc, add_zero]

theorem spends_addCategory (c' : InstCounter) (d : UInt16) :
    (addCategory c' d).Spends (fun s ↦ (s.instructions c).toNat) (2 ^ 64)
      (if c' = c then d.toNat else 0) := by
  rw [addCategory]
  by_cases hd : d > 0
  · rw [if_pos hd, ← UInt16.toNat_toUInt64]
    exact spends_addInst c c' d.toUInt64
  · rw [if_neg hd]
    exact Program.spends_done ()

theorem spends_recordBlock (b : Block) :
    (recordBlock b).Spends (fun s ↦ (s.instructions c).toNat) (2 ^ 64) (b.amount c) := by
  have hfirst := spends_addInst c .totalInstructions b.total.toUInt64
  rw [recordBlock]
  by_cases hnone : b.unsafeTotal = 0
  · rw [if_pos hnone]
    refine (hfirst.bind fun _ ↦ Program.spends_done (n := 0) ()).mono ?_
    rcases c with _ | _ | _ | _ | _ | _ | _ | _ <;> simp [Block.amount, Block.field]
  · rw [if_neg hnone]
    refine (hfirst.bind fun _ ↦
      (spends_addInst c .totalUnsafeInstructions b.unsafeTotal.toUInt64).bind fun _ ↦
      (spends_addCategory c .unsafeLoads b.unsafeLoad).bind fun _ ↦
      (spends_addCategory c .unsafeStores b.unsafeStore).bind fun _ ↦
      (spends_addCategory c .unsafeCalls b.unsafeCall).bind fun _ ↦
      (spends_addCategory c .unsafeCasts b.unsafeCastInst).bind fun _ ↦
      (spends_addCategory c .unsafeGeps b.unsafeGep).bind fun _ ↦
      spends_addCategory c .unsafeOthers b.unsafeOther).mono ?_
    rcases c with _ | _ | _ | _ | _ | _ | _ | _ <;> simp [Block.amount, Block.field, hnone]

theorem spends_amount (op : Op) :
    op.code.Spends (fun s ↦ (s.instructions c).toNat) (2 ^ 64) (op.amount c) := by
  -- the steps of the other calls leave the instruction counters alone
  let R : Shared → Shared → Prop := fun s s' ↦ (s'.instructions c).toNat = (s.instructions c).toNat
  have hdumps : DumpsKeep R := ⟨fun _ ↦ rfl, fun _ _ ↦ rfl, fun _ ↦ rfl, fun _ _ ↦ rfl⟩
  rcases op with table | funcId | b | _ | _
  · exact Program.Steps.spends
      (steps_initMetadata (R := R) (fun _ ↦ rfl) (fun _ _ _ ↦ rfl) (fun _ _ ↦ rfl) table)
  · exact Program.Steps.spends
      (steps_recordFunction (R := R) (fun _ _ ↦ rfl) (fun _ _ ↦ rfl) funcId)
  · exact spends_recordBlock c b
  · exact hdumps.dumpStats.spends
  · exact hdumps.dumpStats.spends

end Instructions

/-- The calls on record of the functions that can be tracked. -/
def Shared.totalCalls (s : Shared) : ℕ := ∑ i ∈ Finset.range maxFunctions, (s.functionCalls i).toNat

/-- A measure of the calls on record, to which a call adds one at most. -/
structure CountsCalls (measure : Shared → ℕ) : Prop where
  congr : ∀ {s s' : Shared}, s'.functionCalls = s.functionCalls → measure s' = measure s
  addCall : ∀ (s : Shared) {i}, i < maxFunctions → ∃ d ≤ 1,
    measure s + d < 2 ^ 64 → measure (s.addCall i) = measure s + d

theorem countsCalls_one (j : ℕ) : CountsCalls fun s ↦ (s.functionCalls j).toNat where
  congr h := by rw [h]
  addCall s i _ := by
    refine ⟨if j = i then 1 else 0, by split <;> simp, fun hlt ↦ ?_⟩
    change (Function.update s.functionCalls i (s.functionCalls i + 1) j).toNat = _
    by_cases hj : j = i
    · subst hj
      rw [if_pos rfl] at hlt ⊢
      rw [Function.update_self, UInt64.toNat_add, UInt64.toNat_one, Nat.mod_eq_of_lt hlt]
    · rw [Function.update_of_ne hj, if_neg hj, add_zero]

theorem countsCalls_total : CountsCalls Shared.totalCalls where
  congr h := by rw [Shared.totalCalls, h, Shared.totalCalls]
  addCall s i hi := by
    refine ⟨1, le_refl 1, fun hlt ↦ ?_⟩
    have hmem := Finset.mem_range.mpr hi
    have hbefore := Finset.add_sum_erase _ (fun j ↦ (s.functionCalls j).toNat) hmem
    have hafter := Finset.add_sum_erase _ (fun j ↦ ((s.addCall i).functionCalls j).toNat) hmem
    have hothers : ∑ j ∈ (Finset.range maxFunctions).erase i, ((s.addCall i).functionCalls j).toNat
        = ∑ j ∈ (Finset.range maxFunctions).erase i, (s.functionCalls j).toNat := by
      refine Finset.sum_congr rfl fun j hj ↦ congrArg UInt64.toNat ?_
      exact Function.update_of_ne (Finset.ne_of_mem_erase hj) ..
    have hown : ((s.addCall i).functionCalls i).toNat = (s.functionCalls i).toNat + 1 := by
      rw [Shared.totalCalls] at hlt
      change (Function.update s.functionCalls i (s.functionCalls i + 1) i).toNat = _
      rw [Function.update_self, UInt64.toNat_add, UInt64.toNat_one, Nat.mod_eq_of_lt]
      omega
    rw [Shared.totalCalls, Shared.totalCalls]
    omega

theorem spends_calls {measure : Shared → ℕ} (h : CountsCalls measure) (op : Op) :
    op.code.Spends measure (2 ^ 64) op.calls := by
  -- the steps of the other calls leave the calls of functions alone
  let R : Shared → Shared → Prop := fun s s' ↦ measure s' = measure s
  have hdumps : DumpsKeep R :=
    ⟨fun _ ↦ rfl, fun _ _ ↦ h.congr rfl, fun _ ↦ h.congr rfl, fun _ _ ↦ h.congr rfl⟩
  rcases op with table | funcId | b | _ | _
  · exact Program.Steps.spends (steps_initMetadata (R := R) (fun _ ↦ h.congr rfl)
      (fun _ _ _ ↦ h.congr rfl) (fun _ _ ↦ h.congr rfl) table)
  · change (recordFunction funcId).Spends measure (2 ^ 64) 1
    rw [recordFunction]
    split
    · exact Program.spends_done ()
    · next hlt =>
      rw [ge_iff_le, not_le] at hlt
      have hcall : (Program.store (Shared.addCall funcId.toNat)).Spends measure (2 ^ 64) 1 := by
        intro s
        obtain ⟨d, hd, hadd⟩ := h.addCall s hlt
        exact ⟨d, 0, by omega, hadd, trivial⟩
      have hsee : (Program.store (Shared.setSeen funcId.toNat)).Spends measure (2 ^ 64) 0 :=
        Program.spends_rmw fun s _ ↦ h.congr rfl
      exact hcall.bind fun _ ↦ hsee
  · exact Program.Steps.spends (steps_recordBlock (R := R) (fun _ _ _ ↦ h.congr rfl) b)
  · exact hdumps.dumpStats.spends
  · exact hdumps.dumpStats.spends

/-! ## No counter wraps -/

section Runs

variable {τ : Type} [DecidableEq τ] [Fintype τ] {table : MetadataTable} {ms pre : List (Move τ Op)}
  {m : Move τ Op}

omit [Fintype τ] in
/-- Once a table is in place nothing is installed any more. -/
theorem grows_run (hle : table.entries.length ≤ maxFunctions) (hpre : pre ++ [m] <+: ms) :
    Grows ((counting τ).run (installed table) pre).shared
      ((counting τ).run (installed table) (pre ++ [m])).shared := by
  let R : Shared → Shared → Prop := fun s s' ↦
    s.metadataInitialized = true → s'.metadataInitialized = true
  have hstart : (installed (τ := τ) table).shared.metadataInitialized = true :=
    (tallied_installed hle).initialized
  have hdumps : DumpsKeep R := ⟨fun _ h ↦ h, fun _ _ h ↦ h, fun _ h ↦ h, fun _ _ h ↦ h⟩
  have hgrows : DumpsKeep Grows := ⟨Grows.refl, fun _ _ ↦ ⟨rfl, rfl, rfl, fun _ h ↦ h⟩,
    fun _ ↦ ⟨rfl, rfl, rfl, fun _ h ↦ h⟩, fun _ _ ↦ ⟨rfl, rfl, rfl, fun _ h ↦ h⟩⟩
  have hsteps : ∀ op : Op, op.code.Steps (fun _ _ ↦ True) R := by
    rintro (table' | funcId | b | _ | _)
    · exact steps_initMetadata (fun _ _ ↦ rfl) (fun _ _ _ h ↦ h) (fun _ _ h ↦ h) table'
    · exact steps_recordFunction (fun _ _ h ↦ h) (fun _ _ h ↦ h) funcId
    · exact steps_recordBlock (fun _ _ _ h ↦ h) b
    · exact hdumps.dumpStats
    · exact hdumps.dumpStats
  have hflag : ∀ pre m, pre ++ [m] <+: ms → R ((counting τ).run (installed table) pre).shared
      ((counting τ).run (installed table) (pre ++ [m])).shared := fun pre m hpre ↦
    (counting τ).run_steps (c := installed table) (fun _ h ↦ h) (fun _ op _ ↦ hsteps op)
      (fun _ ↦ trivial) (fun _ _ _ _ ↦ trivial) hpre
  refine (counting τ).run_assuming (R := R) (c := installed table) (fun h h' hi ↦ h' (h hi))
    (fun _ h ↦ h) Grows.refl (fun _ op _ s hs ↦ ?_) (fun _ _ _ ↦ trivial) hflag hpre
  change op.code.Assuming R Grows (fun _ _ ↦ True) s
  rcases op with table' | funcId | b | _ | _
  · -- a later table is not installed
    change (initMetadata table').Assuming R Grows (fun _ _ ↦ True) s
    rw [initMetadata]
    refine Program.Assuming.bind (P := fun taken _ ↦ taken = true) (fun _ h ↦ h)
      (fun h h' hi ↦ h' (h hi)) (Program.assuming_rmw fun s₁ h₁ _ ↦ ?_) fun taken s₁ _ htaken ↦ ?_
    · have htaken : s₁.metadataInitialized = true := h₁ (hs hstart)
      exact ⟨⟨htaken.symm, rfl, rfl, fun _ h ↦ h⟩, fun _ _ ↦ htaken⟩
    · rw [if_pos htaken]
      exact fun _ _ ↦ trivial
  · exact Program.Steps.assuming (steps_recordFunction (R := Grows)
      (fun _ _ ↦ ⟨rfl, rfl, rfl, fun _ h ↦ h⟩) (fun s i ↦ ⟨rfl, rfl, rfl, fun j hj ↦
        Bitset.contains_insert.mpr (Or.inr hj)⟩) funcId) fun _ _ _ h ↦ h
  · exact Program.Steps.assuming (steps_recordBlock (R := Grows)
      (fun _ _ _ ↦ ⟨rfl, rfl, rfl, fun _ h ↦ h⟩) b) fun _ _ _ h ↦ h
  · exact hgrows.dumpStats.assuming fun _ _ _ h ↦ h
  · exact hgrows.dumpStats.assuming fun _ _ _ h ↦ h

/-- No counter decreases in a run whose calls add less than `2 ^ 64` to each. -/
theorem advances_run (hle : table.entries.length ≤ maxFunctions)
    (hcalls : Service.cost Op.calls ms < 2 ^ 64)
    (hamount : ∀ c, Service.cost (Op.amount c) ms < 2 ^ 64) (hpre : pre ++ [m] <+: ms) :
    Advances ((counting τ).run (installed table) pre).shared
      ((counting τ).run (installed table) (pre ++ [m])).shared := by
  have htallied := tallied_installed hle
  refine ⟨grows_run hle hpre, fun c ↦ ?_, fun i hi ↦ ?_⟩
  · have hzero : ((installed (τ := τ) table).shared.instructions c).toNat = 0 :=
      (htallied.instructions c).trans rfl
    refine (counting τ).measure_le (c := installed table) (fun _ op _ ↦ spends_amount c op)
      (fun _ ↦ trivial) ?_ hpre
    rw [hzero, zero_add]
    exact hamount c
  · have hzero : ((installed (τ := τ) table).shared.functionCalls i).toNat = 0 :=
      (htallied.calls i hi).trans rfl
    refine (counting τ).measure_le (c := installed table)
      (fun _ op _ ↦ spends_calls (countsCalls_one i) op) (fun _ ↦ trivial) ?_ hpre
    rw [hzero, zero_add]
    exact hcalls

/-- The calls on record are no more than the calls that were made. -/
theorem totalCalls_run (hle : table.entries.length ≤ maxFunctions)
    (hcalls : Service.cost Op.calls ms < 2 ^ 64) :
    ((counting τ).run (installed table) ms).shared.totalCalls ≤ Service.cost Op.calls ms := by
  have hzero : (installed (τ := τ) table).shared.totalCalls = 0 :=
    Finset.sum_eq_zero fun i hi ↦
      ((tallied_installed hle).calls i (Finset.mem_range.mp hi)).trans rfl
  have hless : (installed (τ := τ) table).shared.totalCalls + Service.cost Op.calls ms < 2 ^ 64 := by
    rwa [hzero, zero_add]
  have hbound := (counting τ).measure_le_cost (c := installed table)
    (fun _ op _ ↦ spends_calls countsCalls_total op) (fun _ ↦ trivial) hless
  rwa [hzero, zero_add] at hbound

end Runs

/-! ## A function that is seen has been called -/

theorem pos_addCall {s : Shared} {i : ℕ} (h : s.functionCalls i ≤ (s.addCall i).functionCalls i) :
    0 < (s.addCall i).functionCalls i := by
  have hnew : (s.addCall i).functionCalls i = s.functionCalls i + 1 := Function.update_self ..
  rw [hnew] at h ⊢
  rw [UInt64.le_iff_toNat_le, UInt64.toNat_add, UInt64.toNat_one] at h
  rw [UInt64.lt_iff_toNat_lt, UInt64.toNat_zero, UInt64.toNat_add, UInt64.toNat_one]
  have hlt := (s.functionCalls i).toNat_lt
  omega

/-- A function is called before it is marked. -/
theorem assuming_recordFunction (funcId : UInt32) (s : Shared) :
    (recordFunction funcId).Assuming Advances (fun s s' ↦ Counted s → Counted s')
      (fun _ _ ↦ True) s := by
  rw [recordFunction]
  split
  · exact fun _ _ ↦ trivial
  next hlt =>
  rw [ge_iff_le, not_le] at hlt
  refine Program.Assuming.bind (P := fun _ s' ↦ 0 < s'.functionCalls funcId.toNat) Advances.refl
    Advances.trans (Program.assuming_rmw fun s₁ _ hown ↦ ⟨fun h i hi hseen ↦ ?_, fun s₂ h₂ ↦ ?_⟩)
    fun _ s₂ _ hpos ↦ Program.assuming_rmw fun s₃ h₃ _ ↦ ⟨fun h i hi hseen ↦ ?_, fun _ _ ↦ trivial⟩
  · exact UInt64.lt_of_lt_of_le (h i hi hseen) (hown.calls i hi)
  · exact UInt64.lt_of_lt_of_le (pos_addCall (hown.calls _ hlt)) (h₂.calls _ hlt)
  · rcases Bitset.contains_insert.mp hseen with rfl | hseen
    · exact UInt64.lt_of_lt_of_le hpos (h₃.calls _ hlt)
    · exact h i hi hseen

theorem Counted.of_advances {s s' : Shared} (h : Counted s) (hadvances : Advances s s')
    (hseen : s'.functionsSeen = s.functionsSeen) : Counted s' := fun i hi hmarked ↦
  UInt64.lt_of_lt_of_le (h i hi (hseen ▸ hmarked)) (hadvances.calls i hi)

theorem assuming_counted (op : Op) (s : Shared) :
    op.code.Assuming Advances (fun s s' ↦ Counted s → Counted s') (fun _ _ ↦ True) s := by
  let T : Shared → Shared → Prop := fun s s' ↦ s'.functionsSeen = s.functionsSeen
  have hdumps : DumpsKeep T := ⟨fun _ ↦ rfl, fun _ _ ↦ rfl, fun _ ↦ rfl, fun _ _ ↦ rfl⟩
  have hkeep : ∀ s s', Advances s s' → T s s' → Counted s → Counted s' :=
    fun _ _ hadvances hseen h ↦ h.of_advances hadvances hseen
  rcases op with table | funcId | b | _ | _
  · exact Program.Steps.assuming
      (steps_initMetadata (R := T) (fun _ ↦ rfl) (fun _ _ _ ↦ rfl) (fun _ _ ↦ rfl) table) hkeep
  · exact assuming_recordFunction funcId s
  · exact Program.Steps.assuming (steps_recordBlock (R := T) (fun _ _ _ ↦ rfl) b) hkeep
  · exact hdumps.dumpStats.assuming hkeep
  · exact hdumps.dumpStats.assuming hkeep

/-- What a run may do. -/
structure Moves (s s' : Shared) : Prop where
  advances : Advances s s'
  counted : Counted s → Counted s'

theorem Moves.refl (s : Shared) : Moves s s := ⟨.refl s, fun h ↦ h⟩

theorem Moves.trans {s₁ s₂ s₃ : Shared} (h : Moves s₁ s₂) (h' : Moves s₂ s₃) : Moves s₁ s₃ :=
  ⟨h.advances.trans h'.advances, fun hc ↦ h'.counted (h.counted hc)⟩

section Runs

variable {τ : Type} [DecidableEq τ] [Fintype τ] {table : MetadataTable} {ms pre : List (Move τ Op)}
  {m : Move τ Op}

theorem moves_run (hle : table.entries.length ≤ maxFunctions)
    (hcalls : Service.cost Op.calls ms < 2 ^ 64)
    (hamount : ∀ c, Service.cost (Op.amount c) ms < 2 ^ 64) (hpre : pre ++ [m] <+: ms) :
    Moves ((counting τ).run (installed table) pre).shared
      ((counting τ).run (installed table) (pre ++ [m])).shared :=
  ⟨advances_run hle hcalls hamount hpre,
    (counting τ).run_assuming (R := Advances) (G := fun s s' ↦ Counted s → Counted s')
      (c := installed table) Advances.trans Advances.refl (fun _ h ↦ h)
      (fun _ op _ s _ ↦ assuming_counted op s) (fun _ _ _ ↦ trivial)
      (fun _ _ hpre' ↦ advances_run hle hcalls hamount hpre') hpre⟩

end Runs

/-! ## What a report collects -/

/-- What the loop reads of a function lies between two states. -/
structure Read (s₀ s : Shared) (seen : ℕ → Bool) (calls : ℕ → UInt64) (i : ℕ) : Prop where
  kept : Bitset.contains s₀.functionsSeen i = true → seen i = true
  marked : seen i = true → Bitset.contains s.functionsSeen i = true
  lower : seen i = true → s₀.functionCalls i ≤ calls i
  upper : seen i = true → calls i ≤ s.functionCalls i
  pos : seen i = true → 0 < calls i

/-- The figures of a report lie between two states. -/
structure Plausible (table : MetadataTable) (s₀ s : Shared) (r : CounterReport) : Prop where
  lower : ∀ c, s₀.instructions c ≤ r.instructions c
  upper : ∀ c, r.instructions c ≤ s.instructions c
  functions : ∃ seen calls, r.functions
      = FunctionTotals.zero.loop seen table.flagged calls (List.range table.entries.length) ∧
    ∀ i < table.entries.length, Read s₀ s seen calls i

theorem Read.advances {s₀ s s' : Shared} {seen : ℕ → Bool} {calls : ℕ → UInt64} {i : ℕ}
    (h : Read s₀ s seen calls i) (hi : i < maxFunctions) (hadvances : Advances s s') :
    Read s₀ s' seen calls i :=
  ⟨h.kept, fun hseen ↦ hadvances.seen i (h.marked hseen), h.lower,
    fun hseen ↦ UInt64.le_trans (h.upper hseen) (hadvances.calls i hi), h.pos⟩

theorem Plausible.advances {table : MetadataTable} {s₀ s s' : Shared} {r : CounterReport}
    (h : Plausible table s₀ s r) (hle : table.entries.length ≤ maxFunctions)
    (hadvances : Advances s s') : Plausible table s₀ s' r := by
  obtain ⟨seen, calls, heq, hread⟩ := h.functions
  exact ⟨h.lower, fun c ↦ UInt64.le_trans (h.upper c) (hadvances.instructions c),
    seen, calls, heq, fun i hi ↦ (hread i hi).advances (hi.trans_le hle) hadvances⟩

theorem FunctionTotals.loop_congr {totals : FunctionTotals} {seen seen' flagged : ℕ → Bool}
    {calls calls' : ℕ → UInt64} {is : List ℕ}
    (h : ∀ i ∈ is, seen i = seen' i ∧ calls i = calls' i) :
    totals.loop seen flagged calls is = totals.loop seen' flagged calls' is := by
  rw [loop, loop]
  refine List.foldl_ext _ _ _ fun totals i hi ↦ ?_
  rw [(h i hi).1, (h i hi).2]

/-- One more function in front of those that have been read. -/
theorem exists_read_cons {flagged : ℕ → Bool} {s₀ s : Shared} {totals : FunctionTotals} {i : ℕ}
    {is : List ℕ} {seen : ℕ → Bool} {calls : ℕ → UInt64} (b : Bool) (n : UInt64) (hfresh : i ∉ is)
    (hi : Read s₀ s (fun _ ↦ b) (fun _ ↦ n) i) (hread : ∀ j ∈ is, Read s₀ s seen calls j) :
    ∃ seen' calls', (if b then totals.count (flagged i) n else totals).loop seen flagged calls is
        = totals.loop seen' flagged calls' (i :: is) ∧
      ∀ j ∈ i :: is, Read s₀ s seen' calls' j := by
  have hne : ∀ j ∈ is, j ≠ i := fun j hj heq ↦ hfresh (heq ▸ hj)
  refine ⟨Function.update seen i b, Function.update calls i n, ?_, fun j hj ↦ ?_⟩
  · have hcons : totals.loop (Function.update seen i b) flagged (Function.update calls i n) (i :: is)
        = (if Function.update seen i b i then
            totals.count (flagged i) (Function.update calls i n i) else totals).loop
          (Function.update seen i b) flagged (Function.update calls i n) is := rfl
    rw [hcons, Function.update_self, Function.update_self]
    refine FunctionTotals.loop_congr fun j hj ↦ ?_
    rw [Function.update_of_ne (hne j hj), Function.update_of_ne (hne j hj)]
    exact ⟨rfl, rfl⟩
  · rcases List.mem_cons.mp hj with rfl | hj
    · constructor <;> simp only [Function.update_self]
      exacts [hi.kept, hi.marked, hi.lower, hi.upper, hi.pos]
    · have h := hread j hj
      constructor <;> simp only [Function.update_of_ne (hne j hj)]
      exacts [h.kept, h.marked, h.lower, h.upper, h.pos]

section Collect

variable {G : Shared → Shared → Prop} {table : MetadataTable} {s₀ s : Shared}

/-- The loads of the instruction counters. -/
theorem assuming_loadInstructions (hG : ∀ s, G s s) (cs : List InstCounter) (hs : Moves s₀ s) :
    (loadInstructions cs).Assuming Moves G (fun v s' ↦
      ∀ c ∈ cs, s₀.instructions c ≤ v c ∧ v c ≤ s'.instructions c) s := by
  induction cs generalizing s with
  | nil => exact fun s' hR c hc ↦ absurd hc List.not_mem_nil
  | cons c cs ih =>
    refine Program.Assuming.bind (P := fun v s' ↦ s₀.instructions c ≤ v ∧ v ≤ s'.instructions c)
      Moves.refl Moves.trans (Program.assuming_load hG fun s₁ s₂ h₁ h₂ ↦
        ⟨(hs.trans h₁).advances.instructions c, h₂.advances.instructions c⟩) fun v s₁ h₁ hv ↦ ?_
    refine Program.Assuming.bind Moves.refl Moves.trans (ih (hs.trans h₁))
      fun rest s₂ h₂ hrest s₃ h₃ c' hc' ↦ ?_
    by_cases heq : c' = c
    · subst heq
      rw [Function.update_self]
      exact ⟨hv.1, UInt64.le_trans hv.2 ((h₂.trans h₃).advances.instructions c')⟩
    · rw [Function.update_of_ne heq]
      obtain ⟨hlower, hupper⟩ := hrest c' (List.mem_of_ne_of_mem heq hc')
      exact ⟨hlower, UInt64.le_trans hupper (h₃.advances.instructions c')⟩

/-- The loop over the functions. -/
theorem assuming_countFunctions (hfault : ∀ (s : Shared) b, G s { s with fault := b })
    (hmetadata : ∀ i, s.metadata i = table.entries[i]?)
    (hle : table.entries.length ≤ maxFunctions) {is : List ℕ} (hnodup : is.Nodup)
    (his : ∀ i ∈ is, i < table.entries.length) (totals : FunctionTotals) (hs : Moves s₀ s)
    (hcounted : Counted s) :
    (countFunctions is totals).Assuming Moves G (fun totals' s' ↦ ∃ seen calls,
      totals' = totals.loop seen table.flagged calls is ∧ ∀ i ∈ is, Read s₀ s' seen calls i) s := by
  induction is generalizing s totals with
  | nil => exact fun s' hR ↦ ⟨fun _ ↦ false, fun _ ↦ 0, rfl, fun i hi ↦ absurd hi List.not_mem_nil⟩
  | cons i is ih =>
    obtain ⟨hfresh, hnodup⟩ := List.nodup_cons.mp hnodup
    have hi : i < table.entries.length := his i List.mem_cons_self
    have hlt : i < maxFunctions := hi.trans_le hle
    have hrest := fun totals' s' (h : Moves s s') ↦ ih (s := s')
      (fun j ↦ by rw [h.advances.metadata, hmetadata]) hnodup
      (fun j hj ↦ his j (List.mem_cons_of_mem _ hj)) totals' (hs.trans h) (h.counted hcounted)
    rw [countFunctions]
    -- the function has been seen, or it had not been when the report was begun
    refine Program.Assuming.bind (P := fun b s' ↦
        (Bitset.contains s₀.functionsSeen i = true → b = true) ∧
        (b = true → Bitset.contains s'.functionsSeen i = true ∧ 0 < s'.functionCalls i))
      Moves.refl Moves.trans (Program.assuming_rmw fun s₁ h₁ hown ↦ ⟨hfault s₁ _, fun s₂ h₂ ↦
        ⟨(hs.trans h₁).advances.seen i, fun hseen ↦ ⟨h₂.advances.seen i hseen,
          UInt64.lt_of_lt_of_le (h₁.counted hcounted i hlt hseen) (h₂.advances.calls i hlt)⟩⟩⟩)
      fun b s₁ h₁ hb ↦ ?_
    rcases b with _ | _
    · refine (hrest totals s₁ h₁).mono ?_
      rintro totals' s' ⟨seen, calls, rfl, hread⟩
      have hi : Read s₀ s' (fun _ ↦ false) (fun _ ↦ 0) i :=
        ⟨hb.1, fun h ↦ absurd h Bool.false_ne_true, fun h ↦ absurd h Bool.false_ne_true,
          fun h ↦ absurd h Bool.false_ne_true, fun h ↦ absurd h Bool.false_ne_true⟩
      exact exists_read_cons false 0 hfresh hi hread
    · obtain ⟨hmarked, hpos⟩ := hb.2 rfl
      -- its entry is in the table
      refine Program.Assuming.bind (P := fun entry _ ↦ entry.isUnsafe = table.flagged i) Moves.refl
        Moves.trans (Program.assuming_rmw fun s₂ h₂ _ ↦ ?_) fun entry s₂ h₂ hentry ↦ ?_
      · have hsome : s₂.metadata i = some table.entries[i] := by
          rw [(h₁.trans h₂).advances.metadata, hmetadata, List.getElem?_eq_getElem hi]
        rw [hsome, MetadataTable.flagged, List.getElem?_eq_getElem hi, Option.any_some]
        exact ⟨hfault s₂ _, fun _ _ ↦ rfl⟩
      refine Program.Assuming.bind (P := fun n s' ↦ s₀.functionCalls i ≤ n ∧
          n ≤ s'.functionCalls i ∧ 0 < n) Moves.refl Moves.trans
        (Program.assuming_rmw fun s₃ h₃ _ ↦ ⟨hfault s₃ _, fun s₄ h₄ ↦
          ⟨(((hs.trans h₁).trans h₂).trans h₃).advances.calls i hlt, h₄.advances.calls i hlt,
            UInt64.lt_of_lt_of_le hpos ((h₂.trans h₃).advances.calls i hlt)⟩⟩) fun n s₃ h₃ hn ↦ ?_
      obtain ⟨hlower, hupper, hone⟩ := hn
      rw [hentry]
      refine ((hrest _ s₃ ((h₁.trans h₂).trans h₃)).rel Moves.refl Moves.trans).mono ?_
      rintro totals' s' ⟨h₄, seen, calls, rfl, hread⟩
      have hi : Read s₀ s' (fun _ ↦ true) (fun _ ↦ n) i :=
        ⟨fun _ ↦ rfl, fun _ ↦ ((h₂.trans h₃).trans h₄).advances.seen i hmarked, fun _ ↦ hlower,
          fun _ ↦ UInt64.le_trans hupper (h₄.advances.calls i hlt), fun _ ↦ hone⟩
      exact exists_read_cons true n hfresh hi hread

end Collect

/-! ## What a run has told -/

/-- The figures of every report that has been written lie between a state and the present one. -/
def Told (table : MetadataTable) (s₀ s : Shared) : Prop :=
  ∀ text ∈ s.outputs, ∃ r : CounterReport, text = r.output ∧ Plausible table s₀ s r

section Told

variable {table : MetadataTable} {s₀ s s' : Shared}

theorem Told.moves (h : Told table s₀ s) (hle : table.entries.length ≤ maxFunctions)
    (hmoves : Moves s s') (hout : s'.outputs = s.outputs) : Told table s₀ s' := by
  intro text htext
  obtain ⟨r, heq, hr⟩ := h text (hout ▸ htext)
  exact ⟨r, heq, hr.advances hle hmoves.advances⟩

theorem assuming_dumpStats (hle : table.entries.length ≤ maxFunctions)
    (hmetadata : ∀ i, s₀.metadata i = table.entries[i]?)
    (hcount : s₀.metadataCount.toNat = table.entries.length) (hcounted : Counted s₀)
    (hs : Moves s₀ s) :
    dumpStats.Assuming Moves (fun s s' ↦ Told table s₀ s → Told table s₀ s') (fun _ _ ↦ True) s := by
  rw [dumpStats]
  refine Program.Assuming.bind (P := fun _ _ ↦ True) Moves.refl Moves.trans
    (Program.assuming_rmw fun s₁ _ hown ↦ ⟨fun h ↦ h.moves hle hown rfl, fun _ _ ↦ trivial⟩)
    fun written s₁ h₁ _ ↦ ?_
  split
  · exact fun _ _ ↦ trivial
  refine Program.Assuming.bind (P := fun _ _ ↦ True) Moves.refl Moves.trans
    (Program.assuming_load (fun _ h ↦ h) fun _ _ _ _ ↦ trivial) fun initialized s₂ h₂ _ ↦ ?_
  split
  · exact fun _ _ ↦ trivial
  refine Program.Assuming.bind (P := fun n _ ↦ n = table.entries.length) Moves.refl Moves.trans
    (Program.assuming_load (fun _ h ↦ h) fun s₃ _ h₃ _ ↦ ?_) fun n s₃ h₃ hn ↦ ?_
  · rw [(((hs.trans h₁).trans h₂).trans h₃).advances.metadataCount, hcount]
  split
  · exact fun _ _ ↦ trivial
  subst hn
  have hs₃ : Moves s₀ s₃ := ((hs.trans h₁).trans h₂).trans h₃
  refine Program.Assuming.bind Moves.refl Moves.trans
    (assuming_loadInstructions (fun _ h ↦ h) instCounters hs₃) fun instructions s₄ h₄ hinst ↦ ?_
  have hs₄ : Moves s₀ s₄ := hs₃.trans h₄
  refine Program.Assuming.bind Moves.refl Moves.trans (assuming_countFunctions
    (fun s b h text htext ↦ ?_) (fun i ↦ by rw [hs₄.advances.metadata, hmetadata]) hle
    List.nodup_range (fun i hi ↦ List.mem_range.mp hi) .zero hs₄ (hs₄.counted hcounted))
    fun totals s₅ h₅ htotals ↦ ?_
  · obtain ⟨r, heq, hr⟩ := h text htext
    exact ⟨r, heq, hr.advances hle (advances_fault s b)⟩
  refine Program.assuming_rmw (P := fun _ _ ↦ True) fun s₆ h₆ hown ↦
    ⟨fun h text htext ↦ ?_, fun _ _ ↦ trivial⟩
  rcases List.mem_append.mp htext with hold | hnew
  · obtain ⟨r, heq, hr⟩ := h text hold
    exact ⟨r, heq, hr.advances hle hown.advances⟩
  · -- the report that is written now
    obtain rfl := List.mem_singleton.mp hnew
    obtain ⟨seen, calls, heq, hread⟩ := htotals
    have hmem : ∀ c, c ∈ instCounters := by
      rintro (_ | _ | _ | _ | _ | _ | _ | _) <;> decide
    have hnow := h₆.advances.trans hown.advances
    exact ⟨_, rfl, fun c ↦ (hinst c (hmem c)).1,
      fun c ↦ UInt64.le_trans (hinst c (hmem c)).2 ((h₅.advances.trans hnow).instructions c),
      seen, calls, heq, fun i hi ↦
        (hread i (List.mem_range.mpr hi)).advances (hi.trans_le hle) hnow⟩

/-- A thread that has not taken the flag. -/
theorem assuming_resting (hle : table.entries.length ≤ maxFunctions)
    (hmetadata : ∀ i, s₀.metadata i = table.entries[i]?)
    (hcount : s₀.metadataCount.toNat = table.entries.length) (hcounted : Counted s₀)
    (hs : Moves s₀ s) {p : Program Shared Unit} (h : Resting p) :
    p.Assuming Moves (fun s s' ↦ Told table s₀ s → Told table s₀ s') (fun _ _ ↦ True) s := by
  rcases h with hquiet | rfl
  · exact Program.Steps.assuming hquiet fun _ _ hmoves hkeep h ↦ h.moves hle hmoves hkeep.2
  · exact assuming_dumpStats hle hmetadata hcount hcounted hs

end Told

section Runs

variable {τ : Type} [DecidableEq τ] {table : MetadataTable}

theorem inPhase_installed (hle : table.entries.length ≤ maxFunctions) (ms : List (Move τ Op)) :
    ∃ φ, InPhase ((counting τ).run (installed table) ms) φ := by
  have htallied := tallied_installed hle
  induction ms using List.reverseRecOn with
  | nil => exact ⟨.free, ⟨htallied.unwritten, htallied.outputs⟩, fun u _ ↦ .inl (.pure ())⟩
  | append_singleton ms m ih =>
    obtain ⟨φ, hphase⟩ := ih
    obtain ⟨φ', hphase', -⟩ := hphase.move m
    rw [Service.run_append_singleton]
    exact ⟨φ', hphase'⟩

/-- While nobody has taken the flag there is no report, and no thread is writing one. -/
theorem resting_of_unwritten (hle : table.entries.length ≤ maxFunctions) {ms : List (Move τ Op)}
    (h : ((counting τ).run (installed table) ms).shared.statsWritten = false) :
    ((counting τ).run (installed table) ms).shared.outputs = [] ∧
      ∀ t, Resting (((counting τ).run (installed table) ms).thread t) := by
  obtain ⟨φ, hphase⟩ := inPhase_installed hle ms
  obtain rfl := hphase.eq_free h
  exact ⟨hphase.holds.2, fun t ↦ hphase.resting t (by simp [Phase.holder])⟩

variable [Fintype τ]

/-- Every report of a run lies between a state before the flag was taken and the last one. -/
theorem told_run (hle : table.entries.length ≤ maxFunctions) {ms₀ ms : List (Move τ Op)}
    (hcalls : Service.cost Op.calls (ms₀ ++ ms) < 2 ^ 64)
    (hamount : ∀ c, Service.cost (Op.amount c) (ms₀ ++ ms) < 2 ^ 64)
    (hflag : ((counting τ).run (installed table) ms₀).shared.statsWritten = false) :
    Told table ((counting τ).run (installed table) ms₀).shared
      ((counting τ).run (installed table) (ms₀ ++ ms)).shared := by
  have htallied := tallied_installed hle
  -- the first part of the run, from its start
  have hfirst : ∀ pre, pre <+: ms₀ ++ ms → Moves (installed (τ := τ) table).shared
      ((counting τ).run (installed table) pre).shared := by
    intro pre hpre
    induction pre using List.reverseRecOn with
    | nil => exact Moves.refl _
    | append_singleton pre m ih =>
      exact (ih ((List.prefix_append _ _).trans hpre)).trans (moves_run hle hcalls hamount hpre)
  have hbegin := hfirst ms₀ (List.prefix_append _ _)
  have hcounted : Counted (installed (τ := τ) table).shared := by
    intro i hi hseen
    exact absurd ((htallied.seen i hi).mp hseen) List.not_mem_nil
  obtain ⟨hempty, hresting⟩ := resting_of_unwritten hle hflag
  set c := (counting τ).run (installed table) ms₀ with hc
  have hmetadata : ∀ i, c.shared.metadata i = table.entries[i]? := fun i ↦ by
    rw [hbegin.advances.metadata]
    exact htallied.metadata i
  have hcount : c.shared.metadataCount.toNat = table.entries.length := by
    rw [hbegin.advances.metadataCount]
    exact (congrArg UInt32.toNat htallied.metadataCount).trans
      (UInt32.toNat_ofNat_of_lt' table.length_lt)
  -- the rest of the run
  have hrest : ∀ pre, (counting τ).run c pre = (counting τ).run (installed table) (ms₀ ++ pre) :=
    fun pre ↦ by rw [hc, ← Service.run_append]
  have hR : ∀ pre m, pre ++ [m] <+: ms →
      Moves ((counting τ).run c pre).shared ((counting τ).run c (pre ++ [m])).shared := by
    intro pre m hpre
    rw [hrest, hrest, ← List.append_assoc]
    exact moves_run hle hcalls hamount
      ((List.append_assoc ms₀ pre [m]).symm ▸ (List.prefix_append_right_inj ms₀).mpr hpre)
  have hG : ∀ pre m, pre ++ [m] <+: ms → Told table c.shared ((counting τ).run c pre).shared →
      Told table c.shared ((counting τ).run c (pre ++ [m])).shared := by
    intro pre m hpre
    exact (counting τ).run_assuming (R := Moves)
      (G := fun s s' ↦ Told table c.shared s → Told table c.shared s') Moves.trans Moves.refl
      (fun _ h ↦ h) (fun _ op _ s hs ↦ assuming_resting hle hmetadata hcount
        (hbegin.counted hcounted) hs (resting_code op))
      (fun t ↦ assuming_resting hle hmetadata hcount (hbegin.counted hcounted) (Moves.refl _)
        (hresting t)) hR hpre
  rw [← hrest]
  suffices h : ∀ pre, pre <+: ms → Told table c.shared ((counting τ).run c pre).shared from
    h ms List.prefix_rfl
  intro pre hpre
  induction pre using List.reverseRecOn with
  | nil =>
    intro text htext
    rw [Service.run_nil, hempty] at htext
    exact absurd htext List.not_mem_nil
  | append_singleton pre m ih =>
    exact hG pre m hpre (ih ((List.prefix_append _ _).trans hpre))

end Runs

/-! ## Figures -/

/-- Every figure of the first report is at most that of the second. -/
structure CounterReport.Le (r r' : CounterReport) : Prop where
  instructions : ∀ c, r.instructions c ≤ r'.instructions c
  uniqueFunctions : r.functions.uniqueFunctions ≤ r'.functions.uniqueFunctions
  uniqueUnsafeFunctions : r.functions.uniqueUnsafeFunctions ≤ r'.functions.uniqueUnsafeFunctions
  totalFunctionCalls : r.functions.totalFunctionCalls ≤ r'.functions.totalFunctionCalls
  unsafeFunctionCalls : r.functions.unsafeFunctionCalls ≤ r'.functions.unsafeFunctionCalls

/-- The figures of functions fit together. -/
structure FunctionTotals.Coherent (totals : FunctionTotals) : Prop where
  uniqueUnsafe_le : totals.uniqueUnsafeFunctions ≤ totals.uniqueFunctions
  unsafeCalls_le : totals.unsafeFunctionCalls ≤ totals.totalFunctionCalls
  unique_le_calls : totals.uniqueFunctions.toNat ≤ totals.totalFunctionCalls.toNat
  uniqueUnsafe_le_calls : totals.uniqueUnsafeFunctions.toNat ≤ totals.unsafeFunctionCalls.toNat

/-- The sum over the functions that pass a test. -/
def tally (is : List ℕ) (p : ℕ → Bool) (f : ℕ → ℕ) : ℕ := ((is.filter p).map f).sum

section Tally

variable {is : List ℕ} {p q : ℕ → Bool} {f g : ℕ → ℕ}

theorem tally_le (h : ∀ i ∈ is, p i = true → q i = true ∧ f i ≤ g i) : tally is p f ≤ tally is q g := by
  induction is with
  | nil => exact le_refl _
  | cons i is ih =>
    have hrest := ih fun j hj ↦ h j (List.mem_cons_of_mem _ hj)
    rw [tally, tally] at hrest ⊢
    by_cases hp : p i = true
    · obtain ⟨hq, hfg⟩ := h i List.mem_cons_self hp
      simp only [List.filter_cons_of_pos hp, List.filter_cons_of_pos hq, List.map_cons,
        List.sum_cons]
      omega
    · rw [List.filter_cons_of_neg hp]
      refine hrest.trans ?_
      by_cases hq : q i = true
      · simp only [List.filter_cons_of_pos hq, List.map_cons, List.sum_cons]
        omega
      · rw [List.filter_cons_of_neg hq]

theorem tally_one : tally is p (fun _ ↦ 1) = (is.filter p).length := by
  simp [tally]

theorem tally_calls_le {n : ℕ} (hn : n ≤ maxFunctions) (s : Shared) :
    tally (List.range n) p (fun i ↦ (s.functionCalls i).toNat) ≤ s.totalCalls := by
  have hall : tally (List.range n) p (fun i ↦ (s.functionCalls i).toNat)
      ≤ tally (List.range n) (fun _ ↦ true) fun i ↦ (s.functionCalls i).toNat :=
    tally_le fun _ _ _ ↦ ⟨rfl, le_refl _⟩
  refine hall.trans ?_
  have hsum : tally (List.range n) (fun _ ↦ true) (fun i ↦ (s.functionCalls i).toNat)
      = ∑ i ∈ Finset.range n, (s.functionCalls i).toNat := by
    rw [tally, List.filter_true]
    rfl
  rw [hsum, Shared.totalCalls]
  exact Finset.sum_le_sum_of_subset (Finset.range_mono hn)

end Tally

section Figures

variable {seen seen' flagged : ℕ → Bool} {calls calls' : ℕ → UInt64} {n : ℕ}

/-- Without wrapping, the figures of functions are sums over the functions. -/
theorem loop_figures (flagged : ℕ → Bool) (hn : n ≤ maxFunctions)
    (hlt : tally (List.range n) seen (fun i ↦ (calls i).toNat) < 2 ^ 64) :
    let totals := FunctionTotals.zero.loop seen flagged calls (List.range n)
    totals.uniqueFunctions.toNat = tally (List.range n) seen (fun _ ↦ 1) ∧
    totals.uniqueUnsafeFunctions.toNat
      = tally (List.range n) (fun i ↦ seen i && flagged i) (fun _ ↦ 1) ∧
    totals.totalFunctionCalls.toNat = tally (List.range n) seen (fun i ↦ (calls i).toNat) ∧
    totals.unsafeFunctionCalls.toNat
      = tally (List.range n) (fun i ↦ seen i && flagged i) fun i ↦ (calls i).toNat := by
  obtain ⟨h₁, h₂, h₃, h₄⟩ := FunctionTotals.zero.loop_toNat seen flagged calls (List.range n)
  have hzero : FunctionTotals.zero.uniqueFunctions.toNat = 0
      ∧ FunctionTotals.zero.uniqueUnsafeFunctions.toNat = 0
      ∧ FunctionTotals.zero.totalFunctionCalls.toNat = 0
      ∧ FunctionTotals.zero.unsafeFunctionCalls.toNat = 0 := ⟨rfl, rfl, rfl, rfl⟩
  have hsmall : ∀ p : ℕ → Bool, ((List.range n).filter p).length < 2 ^ 32 := by
    intro p
    have hlength := List.length_filter_le p (List.range n)
    rw [List.length_range] at hlength
    have hmax : maxFunctions < 2 ^ 32 := by decide
    omega
  have hpart : tally (List.range n) (fun i ↦ seen i && flagged i) (fun i ↦ (calls i).toNat)
      ≤ tally (List.range n) seen fun i ↦ (calls i).toNat :=
    tally_le fun i _ h ↦ ⟨(Bool.and_eq_true_iff.mp h).1, le_refl _⟩
  rw [hzero.1, zero_add, Nat.mod_eq_of_lt (hsmall _)] at h₁
  rw [hzero.2.1, zero_add, Nat.mod_eq_of_lt (hsmall _)] at h₂
  rw [hzero.2.2.1, zero_add] at h₃
  rw [hzero.2.2.2, zero_add] at h₄
  refine ⟨h₁.trans tally_one.symm, h₂.trans tally_one.symm, h₃.trans (Nat.mod_eq_of_lt hlt),
    h₄.trans (Nat.mod_eq_of_lt (hpart.trans_lt hlt))⟩

/-- A loop that sees more, and more calls. -/
theorem loop_le (hn : n ≤ maxFunctions)
    (hlt : tally (List.range n) seen' (fun i ↦ (calls' i).toNat) < 2 ^ 64)
    (h : ∀ i < n, seen i = true → seen' i = true ∧ calls i ≤ calls' i)
    {instructions instructions' : InstCounter → UInt64}
    (hinst : ∀ c, instructions c ≤ instructions' c) :
    CounterReport.Le
      ⟨instructions, FunctionTotals.zero.loop seen flagged calls (List.range n)⟩
      ⟨instructions', FunctionTotals.zero.loop seen' flagged calls' (List.range n)⟩ := by
  have hcalls : tally (List.range n) seen (fun i ↦ (calls i).toNat)
      ≤ tally (List.range n) seen' fun i ↦ (calls' i).toNat :=
    tally_le fun i hi hseen ↦ h i (List.mem_range.mp hi) hseen
  obtain ⟨h₁, h₂, h₃, h₄⟩ := loop_figures flagged hn (hcalls.trans_lt hlt)
  obtain ⟨h₁', h₂', h₃', h₄'⟩ := loop_figures flagged hn hlt
  refine ⟨hinst, ?_, ?_, ?_, ?_⟩
  · rw [UInt32.le_iff_toNat_le, h₁, h₁']
    exact tally_le fun i hi hseen ↦ ⟨(h i (List.mem_range.mp hi) hseen).1, le_refl _⟩
  · rw [UInt32.le_iff_toNat_le, h₂, h₂']
    refine tally_le fun i hi hboth ↦ ?_
    obtain ⟨hseen, hflag⟩ := Bool.and_eq_true_iff.mp hboth
    exact ⟨Bool.and_eq_true_iff.mpr ⟨(h i (List.mem_range.mp hi) hseen).1, hflag⟩, le_refl _⟩
  · rw [UInt64.le_iff_toNat_le, h₃, h₃']
    exact hcalls
  · rw [UInt64.le_iff_toNat_le, h₄, h₄']
    refine tally_le fun i hi hboth ↦ ?_
    obtain ⟨hseen, hflag⟩ := Bool.and_eq_true_iff.mp hboth
    obtain ⟨hseen', hle⟩ := h i (List.mem_range.mp hi) hseen
    exact ⟨Bool.and_eq_true_iff.mpr ⟨hseen', hflag⟩, hle⟩

theorem loop_coherent (hn : n ≤ maxFunctions)
    (hlt : tally (List.range n) seen (fun i ↦ (calls i).toNat) < 2 ^ 64)
    (hpos : ∀ i < n, seen i = true → 0 < calls i) :
    (FunctionTotals.zero.loop seen flagged calls (List.range n)).Coherent := by
  obtain ⟨h₁, h₂, h₃, h₄⟩ := loop_figures flagged hn hlt
  have hone : ∀ i ∈ List.range n, seen i = true → 1 ≤ (calls i).toNat := fun i hi hseen ↦
    hpos i (List.mem_range.mp hi) hseen
  refine ⟨?_, ?_, ?_, ?_⟩
  · rw [UInt32.le_iff_toNat_le, h₁, h₂]
    exact tally_le fun i _ hboth ↦ ⟨(Bool.and_eq_true_iff.mp hboth).1, le_refl _⟩
  · rw [UInt64.le_iff_toNat_le, h₃, h₄]
    exact tally_le fun i _ hboth ↦ ⟨(Bool.and_eq_true_iff.mp hboth).1, le_refl _⟩
  · rw [h₁, h₃]
    exact tally_le fun i hi hseen ↦ ⟨hseen, hone i hi hseen⟩
  · rw [h₂, h₄]
    exact tally_le fun i hi hboth ↦ ⟨hboth, hone i hi (Bool.and_eq_true_iff.mp hboth).1⟩

end Figures

section Runs

variable {τ : Type} [DecidableEq τ] [Fintype τ]

/-- **A report from a running program.** Let the report not be begun yet, and let the calls of the
whole run, recording threads and all, add less than `2 ^ 64` to each counter. Then every figure of
whatever report is written later is at least what a report would show now and at most what one would
show in the end, and its figures of functions fit together. -/
theorem running_report (table : MetadataTable) (hle : table.entries.length ≤ maxFunctions)
    (ms₀ ms : List (Move τ Op)) (hcalls : Service.cost Op.calls (ms₀ ++ ms) < 2 ^ 64)
    (hamount : ∀ c, Service.cost (Op.amount c) (ms₀ ++ ms) < 2 ^ 64)
    (hflag : ((counting τ).run (installed table) ms₀).shared.statsWritten = false) {text : Text}
    (htext : text ∈ ((counting τ).run (installed table) (ms₀ ++ ms)).shared.outputs) :
    let n := table.entries.length
    ∃ r : CounterReport, text = r.output ∧ r.functions.Coherent ∧
      (CounterReport.of n table ((counting τ).run (installed table) ms₀).shared).Le r ∧
      r.Le (.of n table ((counting τ).run (installed table) (ms₀ ++ ms)).shared) := by
  intro n
  obtain ⟨r, heq, hlower, hupper, seen, calls, hfunctions, hread⟩ :=
    told_run hle hcalls hamount hflag text htext
  have htotal : ((counting τ).run (installed table) (ms₀ ++ ms)).shared.totalCalls < 2 ^ 64 :=
    (totalCalls_run hle hcalls).trans_lt hcalls
  have hend : tally (List.range n) (Bitset.contains
      ((counting τ).run (installed table) (ms₀ ++ ms)).shared.functionsSeen) (fun i ↦
        (((counting τ).run (installed table) (ms₀ ++ ms)).shared.functionCalls i).toNat) < 2 ^ 64 :=
    (tally_calls_le hle _).trans_lt htotal
  have hmiddle : tally (List.range n) seen (fun i ↦ (calls i).toNat) < 2 ^ 64 := by
    refine lt_of_le_of_lt (tally_le fun i hi hseen ↦ ?_) hend
    have h := hread i (List.mem_range.mp hi)
    exact ⟨h.marked hseen, h.upper hseen⟩
  have hr : r = ⟨r.instructions,
      FunctionTotals.zero.loop seen table.flagged calls (List.range n)⟩ := by
    rw [← hfunctions]
  refine ⟨r, heq, ?_, ?_, ?_⟩
  · rw [hfunctions]
    exact loop_coherent hle hmiddle fun i hi ↦ (hread i hi).pos
  · rw [hr]
    refine loop_le hle hmiddle (fun i hi hseen ↦ ?_) hlower
    have hkept := (hread i hi).kept hseen
    exact ⟨hkept, (hread i hi).lower hkept⟩
  · rw [hr]
    exact loop_le hle hend (fun i hi hseen ↦
      ⟨(hread i hi).marked hseen, (hread i hi).upper hseen⟩) hupper

end Runs

/-- One thread records a call of each function and a block, and begins the report; the other calls
one of them again in the meantime. -/
def callUnderReport : List (Move Bool Op) :=
  .call false .dumpStats :: List.replicate 12 (.step false) ++
    Move.alone true (.recordFunction 1) 2 ++ List.replicate 12 (.step false)

/-- What is recorded before the report. -/
def callsBefore : List (Move Bool Op) :=
  Move.alone false (.recordFunction 0) 2 ++ Move.alone false (.recordFunction 1) 2 ++
    Move.alone true (.recordBlock ⟨7, 3, 2, 1, 0, 0, 0, 0⟩) 4

theorem running_report_callUnderReport :
    let s := ((counting Bool).run (installed twoFunctions) callsBefore).shared
    let s' := ((counting Bool).run (installed twoFunctions) (callsBefore ++ callUnderReport)).shared
    ∃ text r, s'.outputs = [text] ∧ text = CounterReport.output r ∧ r.functions.Coherent ∧
      (CounterReport.of 2 twoFunctions s).Le r ∧ r.Le (.of 2 twoFunctions s') := by
  intro s s'
  have hone : s'.outputs.length = 1 := by decide +kernel
  obtain ⟨text, htext⟩ := List.length_eq_one_iff.mp hone
  have hamount : ∀ c, Service.cost (Op.amount c) (callsBefore ++ callUnderReport) < 2 ^ 64 := by
    rintro (_ | _ | _ | _ | _ | _ | _ | _) <;> decide +kernel
  obtain ⟨r, hr⟩ := running_report twoFunctions (by decide) callsBefore callUnderReport
    (by decide +kernel) hamount (by decide +kernel) (htext ▸ List.mem_singleton_self text)
  exact ⟨text, r, htext, hr⟩

end UnsafePerf.UnsafeCounter
