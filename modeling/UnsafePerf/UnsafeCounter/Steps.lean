import UnsafePerf.Concurrency.Observer
import UnsafePerf.UnsafeCounter.Tracker

/-!
# The steps of the calls

Which steps a call can take is read off its code once, for any relation that they are to keep: a call
that records a function adds a call and marks the function, a block adds to instruction counters,
`init_metadata` installs, and `dump_stats` looks, takes its flag and writes (`DumpsKeep`).
-/

open Concurrency

namespace UnsafePerf.UnsafeCounter

variable {R : Shared → Shared → Prop}

theorem steps_recordFunction (hcall : ∀ s i, R s (s.addCall i)) (hseen : ∀ s i, R s (s.setSeen i))
    (funcId : UInt32) : (recordFunction funcId).Steps (fun _ _ ↦ True) R := by
  rw [recordFunction]
  split
  · exact Program.steps_done ()
  · exact .bind (Program.steps_rmw fun s _ ↦ hcall s _) fun _ ↦
      Program.steps_rmw fun s _ ↦ hseen s _

section Blocks

variable (hadd : ∀ s c d, R s (s.addInst c d))

include hadd

theorem steps_addCategory (c : InstCounter) (d : UInt16) :
    (addCategory c d).Steps (fun _ _ ↦ True) R := by
  rw [addCategory]
  split
  · exact Program.steps_rmw fun s _ ↦ hadd s _ _
  · exact Program.steps_done ()

theorem steps_recordBlock (b : Block) : (recordBlock b).Steps (fun _ _ ↦ True) R := by
  rw [recordBlock]
  refine .bind (Program.steps_rmw fun s _ ↦ hadd s _ _) fun _ ↦ ?_
  split
  · exact Program.steps_done ()
  · exact .bind (Program.steps_rmw fun s _ ↦ hadd s _ _) fun _ ↦
      .bind (steps_addCategory hadd _ _) fun _ ↦ .bind (steps_addCategory hadd _ _) fun _ ↦
      .bind (steps_addCategory hadd _ _) fun _ ↦ .bind (steps_addCategory hadd _ _) fun _ ↦
      .bind (steps_addCategory hadd _ _) fun _ ↦ steps_addCategory hadd _ _

end Blocks

theorem steps_initMetadata (hinit : ∀ s, R s { s with metadataInitialized := true })
    (hentry : ∀ (s : Shared) i entry, R s { s.check i maxFunctions with
      metadata := Function.update s.metadata i (some entry) })
    (hcount : ∀ (s : Shared) n, R s { s with metadataCount := n }) (table : MetadataTable) :
    (initMetadata table).Steps (fun _ _ ↦ True) R := by
  have hwrite : ∀ i entries, (writeMetadata i entries).Steps (fun _ _ ↦ True) R := by
    intro i entries
    induction entries generalizing i with
    | nil => exact Program.steps_done ()
    | cons entry entries ih => exact .bind (Program.steps_rmw fun s _ ↦ hentry s _ _) fun _ ↦ ih _
  rw [initMetadata]
  refine .bind (Program.steps_rmw fun s _ ↦ hinit s) fun taken ↦ ?_
  split
  · exact Program.steps_done ()
  dsimp only
  split
  · exact Program.steps_done ()
  exact .bind (hwrite _ _) fun _ ↦ Program.steps_rmw fun s _ ↦ hcount s _

theorem readOnly_loadInstructions (cs : List InstCounter) : (loadInstructions cs).ReadOnly := by
  induction cs with
  | nil => trivial
  | cons c cs ih => exact (Program.readOnly_load _).bind fun _ ↦ ih.bind fun _ ↦ trivial

/-- What the steps of `dump_stats` do is in the relation. -/
structure DumpsKeep (R : Shared → Shared → Prop) : Prop where
  refl : ∀ s, R s s
  fault : ∀ (s : Shared) b, R s { s with fault := b }
  written : ∀ s, R s { s with statsWritten := true }
  outputs : ∀ (s : Shared) texts, R s { s with outputs := texts }

namespace DumpsKeep

variable (h : DumpsKeep R)

include h

theorem countFunctions (is : List ℕ) (totals : FunctionTotals) :
    (countFunctions is totals).Steps (fun _ _ ↦ True) R := by
  induction is generalizing totals with
  | nil => exact Program.steps_done _
  | cons i is ih =>
    refine .bind (Program.steps_rmw fun s _ ↦ h.fault s _) fun seen ↦ ?_
    split
    · refine .bind (Program.steps_rmw fun s _ ↦ ?_) fun entry ↦
        .bind (Program.steps_rmw fun s _ ↦ h.fault s _) fun calls ↦ ih _
      split <;> exact h.fault s _
    · exact ih totals

theorem dumpStats : dumpStats.Steps (fun _ _ ↦ True) R := by
  rw [UnsafeCounter.dumpStats]
  refine .bind (Program.steps_rmw fun s _ ↦ h.written s) fun written ↦ ?_
  split
  · exact Program.steps_done ()
  refine .bind (Program.steps_load h.refl _) fun initialized ↦ ?_
  split
  · exact Program.steps_done ()
  refine .bind (Program.steps_load h.refl _) fun n ↦ ?_
  split
  · exact Program.steps_done ()
  exact .bind ((readOnly_loadInstructions _).steps h.refl) fun _ ↦
    .bind (h.countFunctions _ _) fun _ ↦ Program.steps_rmw fun s _ ↦ h.outputs s _

end DumpsKeep

end UnsafePerf.UnsafeCounter
