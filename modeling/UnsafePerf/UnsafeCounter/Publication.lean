import UnsafePerf.UnsafeCounter.OneShot
import UnsafePerf.UnsafeCounter.Steps

/-!
# Publishing the metadata

`dump_stats` reads metadata with `assume_init`: that an entry has been written is not checked. What
stands for the check is the order of the stores. `init_metadata` writes the entries first and the count
after them, and `dump_stats` reads the count first and looks at no entry that the count does not cover.

So nothing is read that nobody has written, and no index is out of range, whatever the calls, the
threads and the tables, and however their steps interleave: `never_faults`. Several tables may be on
offer at the same time; an entry that has been written stays written.
-/

open Concurrency

namespace UnsafePerf.UnsafeCounter

/-- All entries that the count covers have been written, and nothing has gone wrong. -/
structure Published (s : Shared) : Prop where
  inRange : s.fault = false
  count_le : s.metadataCount.toNat ≤ maxFunctions
  written : ∀ i < s.metadataCount.toNat, (s.metadata i).isSome

/-- The contract of the tracker: an entry that has been written stays written. -/
def publication (τ : Type) : Contract τ Shared where
  inv := Published
  rely _ s s' := ∀ i, (s.metadata i).isSome → (s'.metadata i).isSome
  rely_refl _ _ _ h := h
  rely_trans h h' i hi := h' i (h i hi)

/-- The step touches neither the metadata nor its count, and nothing goes wrong in it. -/
structure Keeps (s s' : Shared) : Prop where
  fault : s'.fault = s.fault
  metadata : s'.metadata = s.metadata
  metadataCount : s'.metadataCount = s.metadataCount

theorem Keeps.refl (s : Shared) : Keeps s s := ⟨rfl, rfl, rfl⟩

theorem Published.keeps {s s' : Shared} (h : Published s) (hk : Keeps s s') : Published s' where
  inRange := hk.fault.trans h.inRange
  count_le := hk.metadataCount ▸ h.count_le
  written i hi := by
    rw [hk.metadata]
    exact h.written i (hk.metadataCount ▸ hi)

theorem Keeps.written {s s' : Shared} (hk : Keeps s s') (i : ℕ) (h : (s.metadata i).isSome) :
    (s'.metadata i).isSome := hk.metadata ▸ h

section Rules

variable {τ α : Type} {t : τ} {Q : α → Shared → Prop} {s : Shared}

theorem honest_keeps {s' : Shared} (h : Published s) (hk : Keeps s s') :
    (publication τ).Honest t s s' := ⟨h.keeps hk, fun _ _ ↦ hk.written⟩

/-- A program whose steps leave the metadata alone may always run. -/
theorem wp_keeps {p : Program Shared α} (h : p.Steps (fun _ _ ↦ True) Keeps)
    (hQ : ∀ a s', (publication τ).rely t s s' → Q a s') : (publication τ).wp t p Q s := by
  induction p generalizing s with
  | done a => exact fun s' hr _ ↦ hQ a s' hr
  | atomic u k ih =>
    intro s₁ h₁ hi
    obtain ⟨hk, hrest⟩ := h s₁ trivial
    refine ⟨honest_keeps hi hk, ih s₁ hrest fun a s' h₂ ↦ ?_⟩
    exact hQ a s' fun i hsome ↦ h₂ i (hk.written i (h₁ i hsome))

theorem keeps_check {i n : ℕ} (h : i < n) (s : Shared) : Keeps s (s.check i n) := by
  rw [Shared.check_of_lt h]
  exact Keeps.refl s

theorem wordIdx_lt {i : ℕ} (h : i < maxFunctions) : Bitset.wordIdx i < bitsetWords := by
  rw [Bitset.wordIdx, bitsetWords]
  rw [maxFunctions] at h ⊢
  omega

end Rules

/-! ## Recording -/

theorem keeps_recordFunction (funcId : UInt32) :
    (recordFunction funcId).Steps (fun _ _ ↦ True) Keeps := by
  rw [recordFunction]
  split
  · exact Program.steps_done ()
  · next hlt =>
    rw [not_le] at hlt
    refine .bind (Program.steps_rmw fun s _ ↦ ?_) fun _ ↦ Program.steps_rmw fun s _ ↦ ?_
    · exact ⟨(keeps_check hlt s).fault, rfl, rfl⟩
    · exact ⟨(keeps_check (wordIdx_lt hlt) s).fault, rfl, rfl⟩

/-! ## Installing and reading -/

section Metadata

variable {τ : Type} {t : τ} {s : Shared}

/-- The entries are written one after the other. -/
theorem wp_writeMetadata {i : ℕ} {entries : List FunctionMetadata}
    (hle : i + entries.length ≤ maxFunctions) (hs : ∀ j < i, (s.metadata j).isSome) :
    (publication τ).wp t (writeMetadata i entries)
      (fun _ s' ↦ ∀ j < i + entries.length, (s'.metadata j).isSome) s := by
  induction entries generalizing i s with
  | nil => exact fun s' hr _ j hj ↦ hr j (hs j hj)
  | cons entry entries ih =>
    rw [List.length_cons] at hle ⊢
    have hlt : i < maxFunctions := by omega
    refine Contract.wp_seq (Q := fun _ s' ↦ ∀ j < i + 1, (s'.metadata j).isSome)
      (Contract.wp_store fun s₁ h₁ hi ↦ ?_) fun _ s' _ hs' ↦ ?_
    · -- writing an entry takes none away
      have hkept : ∀ j, (s₁.metadata j).isSome →
          (Function.update s₁.metadata i (some entry) j).isSome := by
        intro j hj
        by_cases hji : j = i
        · rw [hji, Function.update_self]
          rfl
        · rwa [Function.update_of_ne hji]
      refine ⟨⟨⟨?_, hi.count_le, fun j hj ↦ hkept j (hi.written j hj)⟩, fun _ _ ↦ hkept⟩, ?_⟩
      · exact (keeps_check hlt s₁).fault.trans hi.inRange
      · intro s₂ h₂ _ j hj
        refine h₂ j ?_
        by_cases hji : j = i
        · simp [hji]
        · exact hkept j (h₁ j (hs j (by omega)))
    · have hrest := ih (i := i + 1) (by omega) hs'
      rwa [add_assoc, add_comm 1] at hrest

theorem wp_initMetadata (table : MetadataTable) :
    (publication τ).wp t (initMetadata table) (fun _ _ ↦ True) s := by
  rw [initMetadata]
  refine Contract.wp_seq (Q := fun _ _ ↦ True)
    (wp_keeps (Program.steps_rmw fun s _ ↦ ⟨rfl, rfl, rfl⟩) fun _ _ _ ↦ trivial) fun taken s₁ _ _ ↦ ?_
  split
  · exact fun _ _ _ ↦ trivial
  dsimp only
  split
  · exact fun _ _ _ ↦ trivial
  next hle =>
  rw [gt_iff_lt, not_lt] at hle
  refine Contract.wp_seq (wp_writeMetadata (by omega) fun j hj ↦ absurd hj (Nat.not_lt_zero j))
    fun _ s₂ _ hs₂ ↦ Contract.wp_store fun s₃ h₃ hi ↦ ⟨⟨⟨hi.inRange, ?_, ?_⟩, fun _ _ _ h ↦ h⟩,
      fun _ _ _ ↦ trivial⟩
  · change (UInt32.ofNat table.entries.length).toNat ≤ maxFunctions
    rwa [UInt32.toNat_ofNat_of_lt' table.length_lt]
  · intro j hj
    change j < (UInt32.ofNat table.entries.length).toNat at hj
    rw [UInt32.toNat_ofNat_of_lt' table.length_lt] at hj
    exact h₃ j (hs₂ j (by omega))

/-- The loop reads entries that have been written. -/
theorem wp_countFunctions {is : List ℕ} (totals : FunctionTotals)
    (his : ∀ i ∈ is, i < maxFunctions ∧ (s.metadata i).isSome) :
    (publication τ).wp t (countFunctions is totals) (fun _ _ ↦ True) s := by
  induction is generalizing s totals with
  | nil => exact fun _ _ _ ↦ trivial
  | cons i is ih =>
    have hlt : i < maxFunctions := (his i List.mem_cons_self).1
    have hstay : ∀ {s'}, (publication τ).rely t s s' →
        ∀ j ∈ i :: is, j < maxFunctions ∧ (s'.metadata j).isSome :=
      fun hr j hj ↦ ⟨(his j hj).1, hr j (his j hj).2⟩
    rw [countFunctions]
    refine Contract.wp_seq (Q := fun _ s' ↦ ∀ j ∈ i :: is, j < maxFunctions ∧ (s'.metadata j).isSome)
      (wp_keeps (Program.steps_rmw fun s' _ ↦ keeps_check (wordIdx_lt hlt) s')
        fun _ s' hr ↦ hstay hr) fun seen s₁ _ h₁ ↦ ?_
    split
    · refine Contract.wp_seq
        (Q := fun _ s' ↦ ∀ j ∈ i :: is, j < maxFunctions ∧ (s'.metadata j).isSome)
        (Contract.wp_rmw fun s₂ h₂ hi ↦ ?_) fun entry s₂ _ h₂ ↦ ?_
      · -- the entry has been written
        have hsome : (s₂.metadata i).isSome := h₂ i (h₁ i List.mem_cons_self).2
        rcases hentry : s₂.metadata i with _ | entry
        · rw [hentry] at hsome
          exact absurd hsome (by simp)
        · refine ⟨honest_keeps hi (keeps_check hlt s₂), fun s₃ h₃ _ j hj ↦ ?_⟩
          exact ⟨(h₁ j hj).1, h₃ j (h₂ j (h₁ j hj).2)⟩
      · refine Contract.wp_seq
          (Q := fun _ s' ↦ ∀ j ∈ i :: is, j < maxFunctions ∧ (s'.metadata j).isSome)
          (wp_keeps (Program.steps_rmw fun s' _ ↦ keeps_check hlt s')
            fun _ s' hr j hj ↦ ⟨(h₂ j hj).1, hr j (h₂ j hj).2⟩) fun calls s₃ _ h₃ ↦ ?_
        exact ih _ fun j hj ↦ h₃ j (List.mem_cons_of_mem _ hj)
    · exact ih _ fun j hj ↦ h₁ j (List.mem_cons_of_mem _ hj)

theorem wp_dumpStats : (publication τ).wp t dumpStats (fun _ _ ↦ True) s := by
  rw [dumpStats]
  refine Contract.wp_seq (Q := fun _ _ ↦ True)
    (wp_keeps (Program.steps_rmw fun s _ ↦ ⟨rfl, rfl, rfl⟩) fun _ _ _ ↦ trivial) fun written s₁ _ _ ↦ ?_
  split
  · exact fun _ _ _ ↦ trivial
  refine Contract.wp_seq (Q := fun _ _ ↦ True)
    (wp_keeps (Program.steps_load Keeps.refl _) fun _ _ _ ↦ trivial) fun initialized s₂ _ _ ↦ ?_
  split
  · exact fun _ _ _ ↦ trivial
  -- what the count covers when it is read stays written
  refine Contract.wp_seq
    (Q := fun n s' ↦ n ≤ maxFunctions ∧ ∀ i < n, (s'.metadata i).isSome)
    (Contract.wp_load fun s₃ h₃ hi s₄ h₄ _ ↦ ⟨hi.count_le, fun i hlt ↦ h₄ i (hi.written i hlt)⟩)
    fun n s₃ _ hn ↦ ?_
  split
  · exact fun _ _ _ ↦ trivial
  refine Contract.wp_seq (Q := fun _ s' ↦ ∀ i < n, (s'.metadata i).isSome)
    (wp_keeps ((readOnly_loadInstructions _).steps Keeps.refl) fun _ s' hr i hi ↦ hr i (hn.2 i hi))
    fun instructions s₄ _ h₄ ↦ ?_
  refine Contract.wp_seq (Q := fun _ _ ↦ True) (wp_countFunctions _ fun i hi ↦ ?_) fun _ s₅ _ _ ↦ ?_
  · have hlt := List.mem_range.mp hi
    exact ⟨hlt.trans_le hn.1, h₄ i hlt⟩
  · exact wp_keeps (Program.steps_rmw fun s _ ↦ ⟨rfl, rfl, rfl⟩) fun _ _ _ ↦ trivial

theorem wp_code (op : Op) : (publication τ).wp t op.code (fun _ _ ↦ True) s := by
  rcases op with table | funcId | b | _ | _
  · exact wp_initMetadata table
  · exact wp_keeps (keeps_recordFunction funcId) fun _ _ _ ↦ trivial
  · exact wp_keeps (steps_recordBlock (fun _ _ _ ↦ ⟨rfl, rfl, rfl⟩) b) fun _ _ _ ↦ trivial
  · exact wp_dumpStats
  · exact wp_dumpStats

end Metadata

/-- Whatever the threads call, with whatever tables, and however their steps interleave: no index is
ever out of range, and no metadata is read that nobody has written. -/
theorem never_faults {τ : Type} [DecidableEq τ] (ms : List (Move τ Op)) :
    ((counting τ).run (programStart τ) ms).shared.fault = false := by
  have hstart : Published (programStart τ).shared :=
    ⟨rfl, Nat.zero_le _, fun i hi ↦ absurd hi (Nat.not_lt_zero i)⟩
  exact (Contract.run_sound (counting τ) (fun _ _ _ ↦ True) (fun _ op _ _ _ _ _ ↦ wp_code op)
    (programStart τ) hstart (fun _ _ _ _ ↦ trivial) ms).1.inRange

end UnsafePerf.UnsafeCounter
