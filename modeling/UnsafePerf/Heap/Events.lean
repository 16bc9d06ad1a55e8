import UnsafePerf.Heap.LiveObjects

/-!
# What happens to the heap

An `Event` is what a call is to the application, told from the answers of the system allocator and
the live blocks alone: a block begins, ends, moves, changes its size where it is, or is accessed.

`HeapTracker.record` says what the tracker is meant to do with an event. On one thread it does just
that (`Call.effect_tracker`), so the tracker after a run is the fold of `record` over the events of
the run. Statements about the figures of the tracker are statements about lists of events.
-/

open Concurrency Ranges

namespace UnsafePerf.Heap

/-! ## Events -/

/-- What a call is to the application. -/
inductive Event where
  | allocated (base size : ℕ)
  | freed (base : ℕ)
  | moved (base newBase oldSize newSize : ℕ)
  | resized (base oldSize newSize : ℕ)
  | accessed
  | unsafeAccessed (base size : ℕ) (isLoad : Bool)
  | nothing
  deriving DecidableEq

section Event

variable {τ : Type}

/-- The event of a call. -/
def Call.event (s : Shared τ) : Call → Event
  | .alloc layout answer | .allocZeroed layout answer =>
    if s.blocks.get? answer = none ∧ s.blocks.Free answer layout.size then
      .allocated answer layout.size
    else .nothing
  | .dealloc ptr _ => .freed ptr
  | .realloc ptr layout newSize answer =>
    match s.blocks.get? ptr with
    | none => .nothing
    | some _ =>
      if (s.blocks.erase ptr).get? answer = none ∧ (s.blocks.erase ptr).Free answer newSize then
        if answer = ptr then .resized ptr layout.size newSize
        else .moved ptr answer layout.size newSize
      else .nothing
  | .memAccess ptr => if (s.blocks.at? ptr).isSome then .accessed else .nothing
  | .unsafeMemAccess ptr isLoad =>
    match s.blocks.at? ptr with
    | none => .nothing
    | some (base, blk) => .unsafeAccessed base blk.size isLoad

end Event

/-- What the tracker does with an event. -/
def HeapTracker.record (h : HeapTracker) : Event → HeapTracker
  | .allocated base size =>
    (((h.add .totalUsage size).add .totalAlloc 1).classify size false).insertLive base size
  | .freed base => ((h.add .totalDealloc 1).removeLive base).removeUnsafe base
  | .moved base newBase oldSize newSize =>
    (((((h.removeLive base).removeUnsafe base).add .totalRealloc 1).classify newSize
      false).insertLive newBase newSize).adjust oldSize newSize
  | .resized base oldSize newSize => (h.insertLive base newSize).adjust oldSize newSize
  | .accessed => h.add .totalMemInsts 1
  | .unsafeAccessed base size isLoad =>
    let h₁ := if h.liveUnsafeObjs.contains base then h.insertUnsafe base
      else (((h.insertUnsafe base).add .unsafeMem size).add .totalUnsafeObjs 1).classify size true
    h₁.add (if isLoad then .unsafeLoad else .unsafeStore) 1
  | .nothing => h

/-! ## The tracker records the events -/

section Effect

variable {τ : Type} {s : Shared τ}

/-- The lookup of the tracker finds the block that the system allocator has at the address. -/
theorem Exact.lookup_eq_at? (h : Exact s) (ptr : ℕ) :
    s.tracker.lookup ptr = (s.blocks.at? ptr).map fun e ↦ (e.1, e.2.size) := by
  refine Option.ext fun ⟨b, n⟩ ↦ ?_
  simp only [h.lookup_eq_some_iff, Option.map_eq_some_iff, Prod.exists, RangeMap.at?_eq_some_iff,
    Prod.mk.injEq]
  constructor
  · rintro ⟨⟨blk, hblk, rfl⟩, hle, hlt⟩
    exact ⟨b, blk, ⟨hblk, hle, hlt⟩, rfl, rfl⟩
  · rintro ⟨b, blk, ⟨hblk, hle, hlt⟩, rfl, rfl⟩
    exact ⟨⟨blk, hblk, rfl⟩, hle, hlt⟩

variable [DecidableEq τ] {t : τ}

theorem Call.effect_tracker (h : Exact s) (call : Call) :
    (call.effect t s).tracker = s.tracker.record (call.event s) := by
  cases call with
  | alloc layout answer | allocZeroed layout answer =>
    rw [Call.effect, Call.event]
    split
    · rfl
    · rfl
  | dealloc ptr layout => rfl
  | realloc ptr layout newSize answer =>
    simp only [Call.effect, Call.event]
    rcases s.blocks.get? ptr with _ | blk
    · rfl
    · dsimp only
      split
      · rw [Shared.reallocated]
        split
        · next heq =>
          subst heq
          rfl
        · rfl
      · rfl
  | memAccess ptr =>
    rw [Call.effect, Call.event, h.lookup_eq_at?, Option.isSome_map]
    split
    · rfl
    · rfl
  | unsafeMemAccess ptr isLoad =>
    rw [Call.effect, Call.event, h.lookup_eq_at?]
    rcases s.blocks.at? ptr with _ | ⟨base, blk⟩
    · rfl
    · dsimp only [Option.map_some, HeapTracker.record]
      split
      · rfl
      · rfl

end Effect

/-! ## What an event says of the blocks -/

/-- A block has this base. -/
def Shared.Live {τ : Type} (s : Shared τ) (b : ℕ) : Prop := (s.blocks.get? b).isSome

/-- The event happens between the two states: which blocks there are before and after it. -/
inductive Happens {τ : Type} (s s' : Shared τ) : Event → Prop where
  | allocated {base size : ℕ} (hfresh : ¬s.Live base)
      (hlive : ∀ b, s'.Live b ↔ b = base ∨ s.Live b) : Happens s s' (.allocated base size)
  | freed {base : ℕ} (hbase : s.Live base) (hlive : ∀ b, s'.Live b ↔ b ≠ base ∧ s.Live b) :
      Happens s s' (.freed base)
  | moved {base newBase oldSize newSize : ℕ} (hbase : s.Live base) (hfresh : ¬s.Live newBase)
      (hlive : ∀ b, s'.Live b ↔ b = newBase ∨ b ≠ base ∧ s.Live b) :
      Happens s s' (.moved base newBase oldSize newSize)
  | resized {base oldSize newSize : ℕ} (hbase : s.Live base) (hlive : ∀ b, s'.Live b ↔ s.Live b) :
      Happens s s' (.resized base oldSize newSize)
  | accessed (hlive : ∀ b, s'.Live b ↔ s.Live b) : Happens s s' .accessed
  | unsafeAccessed {base size : ℕ} {isLoad : Bool} (hbase : s.Live base)
      (hlive : ∀ b, s'.Live b ↔ s.Live b) : Happens s s' (.unsafeAccessed base size isLoad)
  | nothing (hlive : ∀ b, s'.Live b ↔ s.Live b) : Happens s s' .nothing

section Happens

variable {τ : Type} {s : Shared τ}

theorem Exact.live_iff (h : Exact s) (b : ℕ) : s.Live b ↔ s.tracker.liveObjs.contains b = true := by
  rw [Shared.Live, Std.ExtTreeMap.contains_eq_isSome_getElem?, h b, Option.isSome_map]

variable [DecidableEq τ] {t : τ}

theorem Call.happens_realloc {ptr : ℕ} {layout : Layout} {newSize answer : ℕ} (hptr : s.Live ptr) :
    Happens s ((Call.realloc ptr layout newSize answer).effect t s)
      ((Call.realloc ptr layout newSize answer).event s) := by
  obtain ⟨blk, hblk⟩ := Option.isSome_iff_exists.mp hptr
  simp only [Call.effect, Call.event, hblk]
  split
  · next hgrant =>
    have hlive : ∀ b, (s.reallocated t ptr layout.size newSize answer blk hgrant.2).Live b ↔
        b = answer ∨ b ≠ ptr ∧ s.Live b := by
      intro b
      rw [Shared.Live, Shared.reallocated_blocks, RangeMap.get?_put, RangeMap.get?_erase,
        Shared.Live]
      grind
    split
    · next hsame =>
      refine .resized hptr fun b ↦ ?_
      rw [hlive, hsame]
      grind
    · next hmoved =>
      refine .moved hptr ?_ hlive
      have hfree := hgrant.1
      rw [RangeMap.get?_erase_of_ne (Ne.symm hmoved)] at hfree
      rw [Shared.Live, hfree]
      simp
  · exact .nothing fun _ ↦ Iff.rfl

/-- The event of a call happens. -/
theorem Call.happens (call : Call) (hall : call.Allowed t s) :
    Happens s (call.effect t s) (call.event s) := by
  cases call with
  | alloc layout answer | allocZeroed layout answer =>
    rw [Call.effect, Call.event]
    split
    · next hgrant =>
      refine .allocated (by simp [Shared.Live, hgrant.1]) fun b ↦ ?_
      change ((s.blocks.put answer _ hgrant.2).get? b).isSome ↔ _
      rw [RangeMap.get?_put, Shared.Live]
      grind
    · exact .nothing fun _ ↦ Iff.rfl
  | dealloc ptr layout =>
    obtain ⟨blk, hblk, -⟩ := owns_iff.mp hall
    refine .freed (by simp [Shared.Live, hblk]) fun b ↦ ?_
    change ((s.blocks.erase ptr).get? b).isSome ↔ _
    rw [RangeMap.get?_erase, Shared.Live]
    grind
  | realloc ptr layout newSize answer =>
    obtain ⟨blk, hblk, -⟩ := owns_iff.mp hall.1
    exact Call.happens_realloc (by simp [Shared.Live, hblk])
  | memAccess ptr =>
    -- an access changes no block, whether it hits one or not
    have hlive : ∀ b, ((Call.memAccess ptr).effect t s).Live b ↔ s.Live b := by
      intro b
      rw [Call.effect]
      split
      · rfl
      · rfl
    rw [Call.event]
    split
    · exact .accessed hlive
    · exact .nothing hlive
  | unsafeMemAccess ptr isLoad =>
    have hlive : ∀ b, ((Call.unsafeMemAccess ptr isLoad).effect t s).Live b ↔ s.Live b := by
      intro b
      rw [Call.effect]
      split
      · rfl
      · dsimp only
        split
        · rfl
        · rfl
    rw [Call.event]
    split
    · exact .nothing hlive
    · next base blk hat =>
      obtain ⟨hblk, -⟩ := RangeMap.at?_eq_some_iff.mp hat
      exact .unsafeAccessed (by simp [Shared.Live, hblk]) hlive

end Happens

/-! ## Runs -/

/-- The events of a run from a state. -/
def eventsFrom (s : State) : List Call → List Event
  | [] => []
  | call :: calls =>
    if call.Allowed () s then call.event s :: eventsFrom (call.exec s) calls
    else eventsFrom (call.exec s) calls

/-- The events of a run from program start. -/
def events (calls : List Call) : List Event := eventsFrom .new calls

theorem eventsFrom_append_singleton (s : State) (calls : List Call) (call : Call) :
    eventsFrom s (calls ++ [call]) = eventsFrom s calls ++
      if call.Allowed () (calls.foldl Call.exec s) then [call.event (calls.foldl Call.exec s)]
      else [] := by
  induction calls generalizing s with
  | nil => rfl
  | cons c calls ih =>
    rw [List.cons_append, eventsFrom, eventsFrom, ih, List.foldl_cons]
    split
    · rfl
    · rfl

theorem events_append_singleton (calls : List Call) (call : Call) :
    events (calls ++ [call]) = events calls ++
      if call.Allowed () (runCalls calls) then [call.event (runCalls calls)] else [] :=
  eventsFrom_append_singleton .new calls call

/-- What holds of the start, and is kept by every event that happens and is recorded, holds of every
run and its events. -/
theorem run_events_induction {P : State → List Event → Prop} (hnew : P .new [])
    (hstep : ∀ s s' es e, P s es → Exact s → Exact s' → Happens s s' e →
      s'.tracker = s.tracker.record e → P s' (es ++ [e]))
    (calls : List Call) : P (runCalls calls) (events calls) := by
  induction calls using List.reverseRecOn with
  | nil => exact hnew
  | append_singleton calls call ih =>
    have hexact := exact_runCalls calls
    rw [runCalls_append_singleton, Call.exec_eq, events_append_singleton]
    split
    · next hall =>
      exact hstep _ _ _ _ ih hexact (hexact.effect call) (call.happens hall)
        (call.effect_tracker hexact)
    · rwa [List.append_nil]

/-- The tracker after a run has recorded its events and nothing else. -/
theorem runCalls_tracker (calls : List Call) :
    (runCalls calls).tracker = (events calls).foldl HeapTracker.record .new := by
  refine run_events_induction (P := fun s es ↦ s.tracker = es.foldl HeapTracker.record .new) rfl
    ?_ calls
  intro s s' es e hs _ _ _ hrecord
  rw [hrecord, hs, List.foldl_append, List.foldl_cons, List.foldl_nil]

end UnsafePerf.Heap
