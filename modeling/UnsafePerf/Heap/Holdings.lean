import UnsafePerf.Concurrency.Observer
import UnsafePerf.Concurrency.Recording
import UnsafePerf.Heap.Concurrent

/-!
# What the threads hold

The blocks of the system allocator change where the code calls it. Which blocks there ought to be is
known without the code: a thread holds what its allocations have returned to it and it has not freed,
and what its reallocations have made of these. `clients` is the service whose threads record this,
from their calls and the pointers that these return, and call by it: they free and resize what they
hold.

Between calls a thread owns just the blocks that it holds (`heldBy_run`), so `clients` does what
`system` does, and whenever no call is in progress the blocks are what all threads together hold
(`blocks_held`). If no record of another thread's block has been removed, so is the map of live objects
(`live_objs_held`).
-/

open Concurrency Ranges

namespace UnsafePerf.Heap

/-- What a thread holds: the sizes of its blocks, by base address. -/
abbrev Holdings := ℕ → Option ℕ

/-- What the thread holds after a call that has returned a pointer, or null. -/
def Holdings.after (held : Holdings) : Call → ℕ → Holdings
  | .alloc layout _, ptr | .allocZeroed layout _, ptr =>
    if ptr = 0 then held else Function.update held ptr (some layout.size)
  | .dealloc ptr _, _ => Function.update held ptr none
  | .realloc ptr _ newSize _, newPtr =>
    -- a block that cannot be resized stays as it was
    if newPtr = 0 then held
    else Function.update (Function.update held ptr none) newPtr (some newSize)
  | .memAccess _, _ | .unsafeMemAccess _ _, _ => held

/-- The obligations of the caller, by what it holds. -/
def Call.Permitted (held : Holdings) : Call → Prop
  | .alloc layout _ | .allocZeroed layout _ => 0 < layout.size
  | .dealloc ptr layout => held ptr = some layout.size
  | .realloc ptr layout newSize _ => held ptr = some layout.size ∧ 0 < newSize
  | .memAccess _ | .unsafeMemAccess _ _ => True

instance (held : Holdings) : (call : Call) → Decidable (call.Permitted held)
  | .alloc _ _ | .allocZeroed _ _ => inferInstanceAs (Decidable (0 < _))
  | .dealloc _ _ => inferInstanceAs (Decidable (_ = _))
  | .realloc _ _ _ _ => inferInstanceAs (Decidable (_ ∧ _))
  | .memAccess _ | .unsafeMemAccess _ _ => inferInstanceAs (Decidable True)

/-- The locals of a thread that records what it holds. -/
structure Client where
  skip : Bool
  held : Holdings

/-! ## The blocks of a thread -/

section HeldBy

variable {τ : Type} [DecidableEq τ] {blocks : Blocks τ} {t u : τ} {b ptr n : ℕ} {blk : Block τ}

/-- The sizes of the blocks that a thread owns. -/
def heldBy (blocks : Blocks τ) (t : τ) : Holdings := fun b ↦
  ((blocks.get? b).filter fun blk ↦ blk.owner = t).map Block.size

theorem heldBy_eq_some_iff : heldBy blocks t b = some n ↔
    ∃ blk, blocks.get? b = some blk ∧ blk.owner = t ∧ blk.size = n := by
  simp [heldBy, Option.filter_eq_some_iff, and_assoc]

/-- Nobody holds what another thread owns. -/
theorem heldBy_eq_none (hblk : blocks.get? ptr = some blk) (hne : blk.owner ≠ u) :
    heldBy blocks u ptr = none := by
  rw [heldBy, hblk, Option.filter_some_neg (by simpa using hne), Option.map_none]

theorem heldBy_put (blk : Block τ) (hfree : blocks.Free b blk.size) :
    heldBy (blocks.put b blk hfree) blk.owner
      = Function.update (heldBy blocks blk.owner) b (some blk.size) := by
  funext b'
  rw [heldBy, RangeMap.get?_put, Function.update_apply]
  by_cases hb : b = b'
  · rw [if_pos hb, if_pos hb.symm, Option.filter_some_pos (by simp), Option.map_some]
  · rw [if_neg hb, if_neg (Ne.symm hb), heldBy]

theorem heldBy_put_of_ne (blk : Block τ) (hfree : blocks.Free b blk.size)
    (hnone : blocks.get? b = none) (hne : blk.owner ≠ u) :
    heldBy (blocks.put b blk hfree) u = heldBy blocks u := by
  funext b'
  rw [heldBy, RangeMap.get?_put]
  split
  · next hb =>
    rw [Option.filter_some_neg (by simpa using hne), heldBy, ← hb, hnone, Option.filter_none]
  · rfl

theorem heldBy_erase :
    heldBy (blocks.erase ptr) t = Function.update (heldBy blocks t) ptr none := by
  funext b
  rw [heldBy, RangeMap.get?_erase, Function.update_apply]
  by_cases hb : ptr = b
  · rw [if_pos hb, if_pos hb.symm, Option.filter_none, Option.map_none]
  · rw [if_neg hb, if_neg (Ne.symm hb), heldBy]

theorem heldBy_erase_of_ne (hblk : blocks.get? ptr = some blk) (hne : blk.owner ≠ u) :
    heldBy (blocks.erase ptr) u = heldBy blocks u := by
  rw [heldBy_erase, ← heldBy_eq_none hblk hne, Function.update_eq_self]

/-- The obligations by what a thread holds are those by the blocks. -/
theorem Call.permitted_iff {s : Shared τ} (call : Call) :
    call.Permitted (heldBy s.blocks t) ↔ call.Allowed t s := by
  cases call <;> simp only [Call.Permitted, Call.Allowed, heldBy_eq_some_iff, owns_iff]

end HeldBy

/-! ## Steps that leave the blocks alone -/

section BlockSteps

variable {τ : Type} {t : τ} {ptr size : ℕ}

/-- The system allocator takes no part in the step. -/
structure KeepsBlocks (s s' : Shared τ) : Prop where
  blocks : s'.blocks = s.blocks
  born : s'.history.born = s.history.born
  latest : s'.history.latest = s.history.latest

/-- Code without a step of the system allocator. -/
abbrev BlockSteps {α : Type} (m : ThreadM Bool (Shared τ) α) : Prop :=
  m.Steps (fun _ _ ↦ True) KeepsBlocks

theorem blockSteps_tracker (f : HeapTracker → HeapTracker) :
    BlockSteps (liftM (trackerStep t f) : ThreadM Bool (Shared τ) Unit) :=
  ThreadM.steps_lift (Program.steps_rmw fun _ _ ↦ ⟨rfl, rfl, rfl⟩)

theorem blockSteps_insertObj : BlockSteps (insertObj t ptr size) := by
  refine .bind ThreadM.steps_get fun skip ↦ ?_
  rcases skip with _ | _
  · exact .bind (ThreadM.steps_set _) fun _ ↦ .bind (ThreadM.steps_lift (Program.steps_rmw fun _ _ ↦
      ⟨rfl, rfl, rfl⟩)) fun _ ↦ ThreadM.steps_set _
  · exact ThreadM.steps_pure _

theorem blockSteps_findHeapObj : BlockSteps (findHeapObj t ptr) := by
  refine .bind ThreadM.steps_get fun skip ↦ ?_
  rcases skip with _ | _
  · exact .bind (ThreadM.steps_set _) fun _ ↦ .bind (ThreadM.steps_lift
      (Program.steps_load (fun _ ↦ ⟨rfl, rfl, rfl⟩) _)) fun _ ↦ .bind (ThreadM.steps_set _) fun _ ↦
        ThreadM.steps_pure _
  · exact ThreadM.steps_pure _

theorem blockSteps_accessHeapObj : BlockSteps (accessHeapObj t ptr) := by
  refine .bind blockSteps_findHeapObj fun obj ↦ ?_
  split
  · exact blockSteps_tracker _
  · exact ThreadM.steps_pure _

theorem blockSteps_accessUnsafeHeapObj (isLoad : Bool) :
    BlockSteps (accessUnsafeHeapObj t ptr isLoad) := by
  have hlast : ∀ c, BlockSteps
      (do liftM (fetchAdd t c 1); set false : ThreadM Bool (Shared τ) PUnit) := fun c ↦
    .bind (blockSteps_tracker _) fun _ ↦ ThreadM.steps_set _
  refine .bind blockSteps_findHeapObj fun obj ↦ ?_
  rcases obj with _ | ⟨base, size⟩
  · exact ThreadM.steps_pure _
  refine .bind ThreadM.steps_get fun skip ↦ ?_
  rcases skip with _ | _
  · refine .bind (ThreadM.steps_set _) fun _ ↦ .bind (ThreadM.steps_lift (Program.steps_rmw fun _ _ ↦
      ⟨rfl, rfl, rfl⟩)) fun fresh ↦ ?_
    have hrest : BlockSteps (if isLoad = true then (do liftM (fetchAdd t .unsafeLoad 1); set false)
        else (do liftM (fetchAdd t .unsafeStore 1); set false) :
          ThreadM Bool (Shared τ) PUnit) := by
      split
      · exact hlast _
      · exact hlast _
    rcases fresh with _ | _
    · exact hrest
    · exact .bind (ThreadM.steps_lift (Program.steps_rmw fun s _ ↦
        ⟨rfl, s.noteCounted_born base size, s.noteCounted_latest base size⟩)) fun _ ↦
        .bind (blockSteps_tracker _) fun _ ↦ .bind (blockSteps_tracker _) fun _ ↦ hrest
  · exact ThreadM.steps_pure _

theorem blockSteps_removeObj [DecidableEq τ] : BlockSteps (removeObj t ptr) := by
  refine .bind ThreadM.steps_get fun skip ↦ ?_
  rcases skip with _ | _
  · exact .bind (ThreadM.steps_set _) fun _ ↦ .bind (ThreadM.steps_lift (Program.steps_rmw fun s _ ↦
      ⟨rfl, s.noteRemoved_born t ptr, s.noteRemoved_latest t ptr⟩)) fun _ ↦
      .bind (blockSteps_tracker _) fun _ ↦ ThreadM.steps_set _
  · exact ThreadM.steps_pure _

/-- The code is a step of the system allocator, whose pointer it returns, and leaves the blocks alone
after it. -/
def Forwards (p : Program (Shared τ) ℕ) (m : ThreadM Bool (Shared τ) ℕ) : Prop :=
  ∃ tail : ℕ → ThreadM Bool (Shared τ) ℕ, m = (liftM p >>= tail) ∧
    ∀ ptr, BlockSteps (tail ptr) ∧ ∀ skip, ((tail ptr).run skip).Returns fun r ↦ r.1 = ptr

theorem forwards_alloc (layout : Layout) (answer : ℕ) :
    Forwards (systemAlloc t layout.size answer) (Heap.alloc t layout answer) := by
  refine ⟨_, rfl, fun ptr ↦ ⟨.bind ThreadM.steps_get fun skip ↦ ?_, fun skip ↦ ?_⟩⟩
  · split
    · exact .bind (blockSteps_tracker _) fun _ ↦ .bind (blockSteps_tracker _) fun _ ↦
        .bind (blockSteps_tracker _) fun _ ↦ .bind blockSteps_insertObj fun _ ↦
        ThreadM.steps_pure _
    · exact ThreadM.steps_pure _
  · rw [ThreadM.run_bind, ThreadM.run_get, Program.done_bind]
    split
    · refine ThreadM.returns_bind (fun _ ↦ ThreadM.returns_bind fun _ ↦
        ThreadM.returns_bind fun _ ↦ ThreadM.returns_bind fun _ _ ↦ ?_) _
      rfl
    · rfl

theorem forwards_realloc [DecidableEq τ] (layout : Layout) (newSize answer : ℕ) :
    Forwards (systemRealloc t ptr newSize answer) (Heap.realloc t ptr layout newSize answer) := by
  let adjust (newPtr : ℕ) : ThreadM Bool (Shared τ) ℕ := do
    if newSize > layout.size then liftM (fetchAdd t .totalUsage (newSize - layout.size))
    else liftM (fetchSub t .totalUsage (layout.size - newSize))
    return newPtr
  have hsteps : ∀ newPtr, BlockSteps (adjust newPtr) := by
    intro newPtr
    dsimp only [adjust]
    split
    · exact .bind (blockSteps_tracker _) fun _ ↦ ThreadM.steps_pure _
    · exact .bind (blockSteps_tracker _) fun _ ↦ ThreadM.steps_pure _
  have hreturns : ∀ newPtr skip, ((adjust newPtr).run skip).Returns fun r ↦ r.1 = newPtr := by
    intro newPtr skip
    dsimp only [adjust]
    split
    · refine ThreadM.returns_bind (fun _ _ ↦ ?_) _
      rfl
    · refine ThreadM.returns_bind (fun _ _ ↦ ?_) _
      rfl
  refine ⟨_, rfl, fun newPtr ↦ ⟨?_, fun skip ↦ ?_⟩⟩
  · split
    · exact ThreadM.steps_pure _
    · refine .bind ThreadM.steps_get fun skip ↦ ?_
      dsimp only
      split
      · split
        · exact .bind blockSteps_removeObj fun _ ↦ .bind (blockSteps_tracker _) fun _ ↦
            .bind (blockSteps_tracker _) fun _ ↦ .bind blockSteps_insertObj fun _ ↦ hsteps newPtr
        · exact .bind blockSteps_insertObj fun _ ↦ hsteps newPtr
      · exact hsteps newPtr
  · split
    · rfl
    · rw [ThreadM.run_bind, ThreadM.run_get, Program.done_bind]
      dsimp only
      split
      · split
        · exact ThreadM.returns_bind (fun _ ↦ ThreadM.returns_bind fun _ ↦
            ThreadM.returns_bind fun _ ↦ ThreadM.returns_bind fun _ ↦ hreturns newPtr) _
        · exact ThreadM.returns_bind (fun _ ↦ hreturns newPtr) _
      · exact hreturns newPtr _

end BlockSteps

/-! ## What a call does to the holdings -/

section Calls

variable {τ α : Type} [DecidableEq τ] {t : τ} {ptr answer newSize : ℕ} {held : Holdings}
  {s : Shared τ}

/-- A thread relies on its own blocks. -/
def ownership : Contract τ (Shared τ) where
  inv _ := True
  rely t s s' := heldBy s'.blocks t = heldBy s.blocks t
  rely_refl _ _ := rfl
  rely_trans h h' := h'.trans h

/-- Code without a step of the system allocator leaves the holdings alone. -/
theorem wp_blockSteps {m : ThreadM Bool (Shared τ) α} (hm : BlockSteps m) (skip : Bool)
    (h : heldBy s.blocks t = held) :
    ownership.wp t (m.run skip) (fun _ s ↦ heldBy s.blocks t = held) s := by
  have hsteps := hm skip
  generalize m.run skip = p at hsteps
  induction p generalizing s with
  | done r => exact fun s₁ hr₁ _ ↦ hr₁.trans h
  | atomic update next ih =>
    intro s₁ hr₁ _
    obtain ⟨hkeeps, hrest⟩ := hsteps s₁ trivial
    refine ⟨⟨trivial, fun u _ ↦ congrArg (heldBy · u) hkeeps.blocks⟩, ih s₁ ?_ hrest⟩
    exact (congrArg (heldBy · t) hkeeps.blocks).trans (hr₁.trans h)

/-- What the system allocator's step has done to the holdings is what the call does. -/
theorem Forwards.wp {p : Program (Shared τ) ℕ} {m : ThreadM Bool (Shared τ) ℕ} {held : ℕ → Holdings}
    (hm : Forwards p m) (skip : Bool)
    (hp : ownership.wp t p (fun ptr s ↦ heldBy s.blocks t = held ptr) s) :
    ownership.wp t (m.run skip) (fun r s ↦ heldBy s.blocks t = held r.1) s := by
  obtain ⟨tail, rfl, htail⟩ := hm
  rw [ThreadM.run_bind, ThreadM.run_lift, bind_assoc]
  refine Contract.wp_seq hp fun ptr s₁ _ h₁ ↦ ?_
  obtain ⟨hsteps, hreturns⟩ := htail ptr
  refine Contract.wp_mono ?_ (Contract.wp_returns (hreturns skip) (wp_blockSteps hsteps skip h₁))
  rintro r s₂ - ⟨rfl, h₂⟩
  exact h₂

theorem wp_systemAlloc_held (layout : Layout) (h : heldBy s.blocks t = held) :
    ownership.wp t (systemAlloc t layout.size answer)
      (fun ptr s ↦ heldBy s.blocks t = held.after (.alloc layout answer) ptr) s := by
  refine Contract.wp_rmw fun s₁ hr₁ _ ↦ ?_
  have h₁ := hr₁.trans h
  by_cases hgrant : s₁.blocks.get? answer = none ∧ s₁.blocks.Free answer layout.size
  · rw [dif_pos hgrant]
    refine ⟨⟨trivial, fun u hu ↦ heldBy_put_of_ne _ hgrant.2 hgrant.1 hu.symm⟩, fun s₂ hr₂ _ ↦ ?_⟩
    rw [hr₂, Holdings.after, if_neg (Nat.pos_iff_ne_zero.mp hgrant.2.1.1), ← h₁]
    exact heldBy_put _ hgrant.2
  · rw [dif_neg hgrant]
    exact ⟨⟨trivial, fun u _ ↦ rfl⟩, fun s₂ hr₂ _ ↦ hr₂.trans h₁⟩

theorem wp_systemDealloc_held (layout : Layout) (h : heldBy s.blocks t = held)
    (hall : held ptr = some layout.size) :
    ownership.wp t (systemDealloc t ptr)
      (fun _ s ↦ heldBy s.blocks t = Function.update held ptr none) s := by
  refine Contract.wp_store fun s₁ hr₁ _ ↦ ?_
  have h₁ := hr₁.trans h
  obtain ⟨blk, hblk, hown, -⟩ := heldBy_eq_some_iff.mp ((congrFun h₁ ptr).trans hall)
  refine ⟨⟨trivial, fun u hu ↦ heldBy_erase_of_ne hblk (hown ▸ hu.symm)⟩, fun s₂ hr₂ _ ↦ ?_⟩
  rw [hr₂, ← h₁]
  exact heldBy_erase

theorem wp_dealloc_held (layout : Layout) (skip : Bool) (h : heldBy s.blocks t = held)
    (hall : held ptr = some layout.size) :
    ownership.wp t ((Heap.dealloc t ptr layout).run skip)
      (fun _ s ↦ heldBy s.blocks t = Function.update held ptr none) s := by
  have hlast : ∀ (skip : Bool) {s : Shared τ}, heldBy s.blocks t = held →
      ownership.wp t ((liftM (systemDealloc t ptr) : ThreadM Bool (Shared τ) Unit).run skip)
        (fun _ s ↦ heldBy s.blocks t = Function.update held ptr none) s := fun _ _ h ↦
    Contract.wp_seq (wp_systemDealloc_held layout h hall) fun _ _ _ h ↦
      Contract.wp_done fun _ hr _ ↦ hr.trans h
  rw [Heap.dealloc, ThreadM.run_bind, ThreadM.run_get, Program.done_bind]
  split
  · refine Contract.wp_seq (wp_blockSteps (blockSteps_tracker _) _ h) fun r s₁ _ h₁ ↦ ?_
    refine Contract.wp_seq (wp_blockSteps blockSteps_removeObj _ h₁) fun r s₂ _ h₂ ↦ ?_
    exact hlast _ h₂
  · exact hlast _ h

theorem wp_systemRealloc_held (layout : Layout) (h : heldBy s.blocks t = held)
    (hall : held ptr = some layout.size) :
    ownership.wp t (systemRealloc t ptr newSize answer)
      (fun newPtr s ↦
        heldBy s.blocks t = held.after (.realloc ptr layout newSize answer) newPtr) s := by
  refine Contract.wp_rmw fun s₁ hr₁ _ ↦ ?_
  have h₁ := hr₁.trans h
  obtain ⟨blk, hblk, hown, -⟩ := heldBy_eq_some_iff.mp ((congrFun h₁ ptr).trans hall)
  subst hown
  simp only [hblk]
  by_cases hgrant : (s₁.blocks.erase ptr).get? answer = none ∧
      (s₁.blocks.erase ptr).Free answer newSize
  · rw [dif_pos hgrant]
    refine ⟨⟨trivial, fun u hu ↦ ?_⟩, fun s₂ hr₂ _ ↦ ?_⟩
    · exact (heldBy_put_of_ne { blk with size := newSize } hgrant.2 hgrant.1 hu.symm).trans
        (heldBy_erase_of_ne hblk hu.symm)
    · rw [hr₂, Holdings.after, if_neg (Nat.pos_iff_ne_zero.mp hgrant.2.1.1), ← h₁, ← heldBy_erase]
      exact heldBy_put { blk with size := newSize } hgrant.2
  · rw [dif_neg hgrant]
    exact ⟨⟨trivial, fun u _ ↦ rfl⟩, fun s₂ hr₂ _ ↦ hr₂.trans h₁⟩

/-- What the call returns: a pointer, or nothing to speak of. -/
def Call.pointer (t : τ) : Call → ThreadM Bool (Shared τ) ℕ
  | .alloc layout answer => Heap.alloc t layout answer
  | .allocZeroed layout answer => Heap.allocZeroed t layout answer
  | .dealloc ptr layout => (fun _ ↦ 0) <$> Heap.dealloc t ptr layout
  | .realloc ptr layout newSize answer => Heap.realloc t ptr layout newSize answer
  | .memAccess ptr => (fun _ ↦ 0) <$> accessHeapObj t ptr
  | .unsafeMemAccess ptr isLoad => (fun _ ↦ 0) <$> accessUnsafeHeapObj t ptr isLoad

theorem Call.code_run (t : τ) (call : Call) (skip : Bool) :
    Prod.snd <$> (call.code t).run skip = Prod.snd <$> (call.pointer t).run skip := by
  cases call <;> simp [Call.code, Call.pointer, StateT.run_map]

/-- A permitted call of a thread leaves it with what it holds then. -/
theorem wp_pointer (call : Call) (skip : Bool) (h : heldBy s.blocks t = held)
    (hall : call.Permitted held) :
    ownership.wp t ((call.pointer t).run skip)
      (fun r s ↦ heldBy s.blocks t = held.after call r.1) s := by
  cases call with
  | alloc layout answer =>
    exact (forwards_alloc layout answer).wp skip (wp_systemAlloc_held layout h)
  | allocZeroed layout answer =>
    rw [Call.pointer, allocZeroed_eq_alloc]
    exact (forwards_alloc layout answer).wp skip (wp_systemAlloc_held layout h)
  | dealloc ptr layout => exact Contract.wp_map (wp_dealloc_held layout skip h hall)
  | realloc ptr layout newSize answer =>
    exact (forwards_realloc layout newSize answer).wp skip (wp_systemRealloc_held layout h hall.1)
  | memAccess ptr => exact Contract.wp_map (wp_blockSteps blockSteps_accessHeapObj skip h)
  | unsafeMemAccess ptr isLoad =>
    exact Contract.wp_map (wp_blockSteps (blockSteps_accessUnsafeHeapObj isLoad) skip h)

end Calls

/-! ## Runs -/

section Runs

variable {τ : Type} [DecidableEq τ]

/-- The tracker as a service whose threads record what they hold, and call by that. -/
def clients : Service τ Call (Shared τ) Client where
  code t call c := (fun r ↦ ⟨r.2, c.held.after call r.1⟩) <$> (call.pointer t).run c.skip
  allowed _ call c _ := call.Permitted c.held

/-- Every thread idle and without a block, before the first call. -/
def startClients : Config τ (Shared τ) Client := .start .new ⟨false, fun _ ↦ none⟩

/-- Between calls a thread owns the blocks that it holds. -/
theorem heldBy_run (ms : List (Move τ Call)) {t : τ} {c : Client}
    (hidle : (clients.run startClients ms).Idle t c) :
    heldBy (clients.run startClients ms).shared.blocks t = c.held := by
  refine Contract.run_idle (C := ownership) clients (fun t c s ↦ heldBy s.blocks t = c.held)
    (fun t call c s _ h hall ↦ ?_) startClients trivial (fun t ↦ ?_) ms hidle
  · exact Contract.wp_map (wp_pointer call c.skip h (of_decide_eq_true hall))
  · refine Contract.wp_done fun s hr _ ↦ hr.trans ?_
    funext b
    simp [startClients, Config.start, Shared.new, heldBy]

/-- A run is the same whether the threads record what they hold or not. -/
theorem run_start_eq (ms : List (Move τ Call)) :
    system.run start ms = (clients.run startClients ms).forget Client.skip := by
  have hstart : (startClients : Config τ (Shared τ) Client).forget Client.skip = start := rfl
  rw [← hstart]
  refine Service.run_forget (fun t call c ↦ ?_) startClients ms fun pre t call c hidle ↦ ?_
  · change Prod.snd <$> (call.code t).run c.skip = Client.skip <$> (_ <$> _)
    rw [Call.code_run, Functor.map_map]
  · change decide _ = decide _
    rw [decide_eq_decide, ← heldBy_run pre hidle, Call.permitted_iff]

theorem idle_iff (ms : List (Move τ Call)) {t : τ} {skip : Bool} :
    (system.run start ms).Idle t skip ↔
      ∃ c, (clients.run startClients ms).Idle t c ∧ c.skip = skip := by
  rw [run_start_eq, Config.forget_idle_iff]

/-- Whenever no call is in progress, the blocks of the system allocator are what the threads hold by
their calls. -/
theorem blocks_held (ms : List (Move τ Call)) (hidle : ∀ t, ∃ skip, (system.run start ms).Idle t skip)
    (b n : ℕ) : ((system.run start ms).shared.blocks.get? b).map Block.size = some n ↔
      ∃ t c, (clients.run startClients ms).Idle t c ∧ c.held b = some n := by
  have hshared : (system.run start ms).shared = (clients.run startClients ms).shared := by
    rw [run_start_eq, Config.forget]
  rw [hshared, Option.map_eq_some_iff]
  constructor
  · rintro ⟨blk, hblk, hsize⟩
    obtain ⟨skip, hskip⟩ := hidle blk.owner
    obtain ⟨c, hc, -⟩ := (idle_iff ms).mp hskip
    refine ⟨blk.owner, c, hc, ?_⟩
    rw [← heldBy_run ms hc]
    exact heldBy_eq_some_iff.mpr ⟨blk, hblk, rfl, hsize⟩
  · rintro ⟨t, c, hc, hheld⟩
    rw [← heldBy_run ms hc] at hheld
    obtain ⟨blk, hblk, -, hsize⟩ := heldBy_eq_some_iff.mp hheld
    exact ⟨blk, hblk, hsize⟩

/-- In a run in which no removal takes the record of another thread's block, the map of live objects
is what the threads hold by their calls, whenever no call is in progress. -/
theorem live_objs_held (ms : List (Move τ Call))
    (hclean : (system.run start ms).shared.history.clobbered = [])
    (hidle : ∀ t, ∃ skip, (system.run start ms).Idle t skip) (b n : ℕ) :
    (system.run start ms).shared.tracker.liveObjs[b]? = some n ↔
      ∃ t c, (clients.run startClients ms).Idle t c ∧ c.held b = some n := by
  rw [exact_run ms hclean hidle b]
  exact blocks_held ms hidle b n

end Runs

end UnsafePerf.Heap
