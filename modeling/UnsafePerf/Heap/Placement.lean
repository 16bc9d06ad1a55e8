import UnsafePerf.Heap.Lifetimes
import UnsafePerf.Heap.Usage

/-!
# The figures and the placement of blocks

A program issues requests against blocks; where a block is, and whether it stays there when it is
resized, is decided by the system allocator. A `Request` names blocks by number, in the order of
their allocation, and addresses by the offset in their block, so two runs issue the same requests
exactly if their lists of requests are equal.

`Numbered` is the tracker without a placement: it keeps every block under its number for ever, and
is told of every resize whether it moved the block. Every run refines it (`Refines`), so the figures
are a function of the requests and of which resizes moved their block, and of nothing else: no
address leaks into them. The second argument does matter, since `realloc` counts and classifies a
resize only if the block moved, and a moved block is new to the set of unsafe objects.
-/

open Concurrency Ranges Std

namespace UnsafePerf.Heap

/-! ## Requests -/

/-- What the program asks for. Blocks have the number of their allocation. -/
inductive Request where
  | alloc (size : ℕ)
  | free (block : ℕ)
  | resize (block newSize : ℕ)
  | access (block offset : ℕ)
  | unsafeAccess (block offset : ℕ) (isLoad : Bool)
  /-- The system answered with null, or the caller broke the contract. -/
  | refused
  /-- An access to an address outside of all blocks. -/
  | elsewhere
  deriving DecidableEq

/-- The request of a call. -/
def Call.request (s : State) : Call → Request
  | .alloc layout answer | .allocZeroed layout answer =>
    if s.blocks.get? answer = none ∧ s.blocks.Free answer layout.size then .alloc layout.size
    else .refused
  | .dealloc ptr _ =>
    match s.blocks.get? ptr with
    | none => .refused
    | some blk => .free blk.chain
  | .realloc ptr _ newSize answer =>
    match s.blocks.get? ptr with
    | none => .refused
    | some blk =>
      if (s.blocks.erase ptr).get? answer = none ∧ (s.blocks.erase ptr).Free answer newSize then
        .resize blk.chain newSize
      else .refused
  | .memAccess ptr =>
    match s.blocks.at? ptr with
    | none => .elsewhere
    | some (base, blk) => .access blk.chain (ptr - base)
  | .unsafeMemAccess ptr isLoad =>
    match s.blocks.at? ptr with
    | none => .elsewhere
    | some (base, blk) => .unsafeAccess blk.chain (ptr - base) isLoad

/-- The call is a resize whose block moved. -/
def Call.moves (s : State) (call : Call) : Bool :=
  match call.event s with
  | .moved _ _ _ _ => true
  | _ => false

/-- The request of a call, with whether it moved a block. -/
def Call.placed (s : State) (call : Call) : Request × Bool :=
  if call.Allowed () s then (call.request s, call.moves s) else (.refused, false)

/-- The requests of a run from a state. -/
def placedFrom (s : State) : List Call → List (Request × Bool)
  | [] => []
  | call :: calls => call.placed s :: placedFrom (call.exec s) calls

/-- The requests of a run from program start, each with whether it moved a block. -/
def placed (calls : List Call) : List (Request × Bool) := placedFrom .new calls

/-- The requests of a run from program start. -/
def requests (calls : List Call) : List Request := (placed calls).map Prod.fst

/-- Which requests of a run moved a block. -/
def moves (calls : List Call) : List Bool := (placed calls).map Prod.snd

/-! ## The tracker without a placement -/

/-- Every block is kept under its number. -/
structure Numbered where
  born : ℕ
  tracker : HeapTracker

namespace Numbered

/-- Nothing has happened. -/
def new : Numbered := ⟨0, .new⟩

/-- The size of a block. -/
def size (a : Numbered) (block : ℕ) : ℕ := (a.tracker.liveObjs[block]?).getD 0

/-- One request. -/
def step (a : Numbered) : Request × Bool → Numbered
  | (.alloc size, _) => ⟨a.born + 1, a.tracker.record (.allocated a.born size)⟩
  | (.free block, _) => { a with tracker := a.tracker.record (.freed block) }
  | (.resize block newSize, true) =>
    { a with tracker := a.tracker.record (.moved block block (a.size block) newSize) }
  | (.resize block newSize, false) =>
    { a with tracker := a.tracker.record (.resized block (a.size block) newSize) }
  | (.access _ _, _) => { a with tracker := a.tracker.record .accessed }
  | (.unsafeAccess block _ isLoad, _) =>
    { a with tracker := a.tracker.record (.unsafeAccessed block (a.size block) isLoad) }
  | (.refused, _) | (.elsewhere, _) => a

end Numbered

/-! ## Trackers with the same figures -/

/-- The figures are the same. -/
structure SameFigures (h h' : HeapTracker) : Prop where
  counters : h.counters = h'.counters
  sizeHistogram : h.sizeHistogram = h'.sizeHistogram
  unsafeSizeHistogram : h.unsafeSizeHistogram = h'.unsafeSizeHistogram

namespace SameFigures

variable {h h' : HeapTracker} (hsame : SameFigures h h')

include hsame

theorem report_eq : h.report = h'.report := by
  rw [HeapTracker.report, HeapTracker.report, hsame.counters, hsame.sizeHistogram,
    hsame.unsafeSizeHistogram]

theorem add (c : HeapCounter) (n : ℕ) : SameFigures (h.add c n) (h'.add c n) where
  counters := by rw [HeapTracker.add, HeapTracker.add, hsame.counters]
  sizeHistogram := hsame.sizeHistogram
  unsafeSizeHistogram := hsame.unsafeSizeHistogram

theorem adjust (oldSize newSize : ℕ) :
    SameFigures (h.adjust oldSize newSize) (h'.adjust oldSize newSize) where
  counters := by
    rw [HeapTracker.adjust, HeapTracker.adjust]
    split
    · exact (hsame.add _ _).counters
    · rw [HeapTracker.sub, HeapTracker.sub, hsame.counters]
  sizeHistogram := by
    rw [HeapTracker.sizeHistogram_adjust, HeapTracker.sizeHistogram_adjust, hsame.sizeHistogram]
  unsafeSizeHistogram := by
    rw [HeapTracker.unsafeSizeHistogram_adjust, HeapTracker.unsafeSizeHistogram_adjust,
      hsame.unsafeSizeHistogram]

theorem classify (size : ℕ) (isUnsafe : Bool) :
    SameFigures (h.classify size isUnsafe) (h'.classify size isUnsafe) := by
  cases isUnsafe with
  | true =>
    refine ⟨hsame.counters, hsame.sizeHistogram, ?_⟩
    simp only [HeapTracker.classify, if_true, hsame.unsafeSizeHistogram]
  | false =>
    refine ⟨hsame.counters, ?_, hsame.unsafeSizeHistogram⟩
    simp only [HeapTracker.classify, Bool.false_eq_true, if_false, hsame.sizeHistogram]

theorem insertLive (b b' n n' : ℕ) : SameFigures (h.insertLive b n) (h'.insertLive b' n') :=
  ⟨hsame.counters, hsame.sizeHistogram, hsame.unsafeSizeHistogram⟩

theorem removeLive (b b' : ℕ) : SameFigures (h.removeLive b) (h'.removeLive b') :=
  ⟨hsame.counters, hsame.sizeHistogram, hsame.unsafeSizeHistogram⟩

theorem insertUnsafe (b b' : ℕ) : SameFigures (h.insertUnsafe b) (h'.insertUnsafe b') :=
  ⟨hsame.counters, hsame.sizeHistogram, hsame.unsafeSizeHistogram⟩

theorem removeUnsafe (b b' : ℕ) : SameFigures (h.removeUnsafe b) (h'.removeUnsafe b') :=
  ⟨hsame.counters, hsame.sizeHistogram, hsame.unsafeSizeHistogram⟩

theorem allocated (b b' n : ℕ) :
    SameFigures (h.record (.allocated b n)) (h'.record (.allocated b' n)) :=
  (((hsame.add _ _).add _ _).classify _ _).insertLive ..

theorem freed (b b' : ℕ) : SameFigures (h.record (.freed b)) (h'.record (.freed b')) :=
  ((hsame.add _ _).removeLive ..).removeUnsafe ..

theorem moved (b b' newB newB' oldSize newSize : ℕ) :
    SameFigures (h.record (.moved b newB oldSize newSize))
      (h'.record (.moved b' newB' oldSize newSize)) :=
  (((((hsame.removeLive ..).removeUnsafe ..).add _ _).classify _ _).insertLive ..).adjust _ _

theorem resized (b b' oldSize newSize : ℕ) :
    SameFigures (h.record (.resized b oldSize newSize)) (h'.record (.resized b' oldSize newSize)) :=
  (hsame.insertLive ..).adjust _ _

theorem accessed : SameFigures (h.record .accessed) (h'.record .accessed) := hsame.add _ _

/-- An access counts its object in both trackers or in neither. -/
theorem unsafeAccessed {b b' : ℕ} (size : ℕ) (isLoad : Bool)
    (hknown : h.liveUnsafeObjs.contains b = h'.liveUnsafeObjs.contains b') :
    SameFigures (h.record (.unsafeAccessed b size isLoad))
      (h'.record (.unsafeAccessed b' size isLoad)) := by
  simp only [HeapTracker.record, ← hknown]
  split
  · exact (hsame.insertUnsafe ..).add _ _
  · exact ((((hsame.insertUnsafe ..).add _ _).add _ _).classify _ _).add _ _

end SameFigures

/-! ## Every run refines the tracker without a placement -/

/-- The tracker without a placement has the figures of the state, and knows of every live block what
the state's tracker knows. -/
structure Refines (s : State) (a : Numbered) : Prop where
  figures : SameFigures s.tracker a.tracker
  born : a.born = s.history.born
  size : ∀ {b blk}, s.blocks.get? b = some blk → a.tracker.liveObjs[blk.chain]? = some blk.size
  known : ∀ {b blk}, s.blocks.get? b = some blk →
    s.tracker.liveUnsafeObjs.contains b = a.tracker.liveUnsafeObjs.contains blk.chain
  /-- An address is not known where a block begins. -/
  fresh : ∀ b, s.blocks.get? b = none → s.tracker.liveUnsafeObjs.contains b = false
  unborn : ∀ k, a.born ≤ k → a.tracker.liveUnsafeObjs.contains k = false

theorem contains_insert_nat (m : ExtTreeSet ℕ) (b b' : ℕ) :
    (m.insert b).contains b' = (decide (b = b') || m.contains b') := by
  rw [ExtTreeSet.contains_insert]
  by_cases h : b = b' <;> simp [h]

theorem contains_erase_nat (m : ExtTreeSet ℕ) (b b' : ℕ) :
    (m.erase b).contains b' = (!decide (b = b') && m.contains b') := by
  rw [ExtTreeSet.contains_erase]
  by_cases h : b = b' <;> simp [h]

namespace Refines

variable {s : State} {a : Numbered}

theorem new : Refines .new .new where
  figures := ⟨rfl, rfl, rfl⟩
  born := rfl
  size hb := by simp [Shared.new] at hb
  known hb := by simp [Shared.new] at hb
  fresh b _ := by simp [Shared.new, HeapTracker.new]
  unborn k _ := by simp [Numbered.new, HeapTracker.new]

theorem size_eq (h : Refines s a) {b : ℕ} {blk : Block Unit} (hb : s.blocks.get? b = some blk) :
    a.size blk.chain = blk.size := by
  rw [Numbered.size, h.size hb, Option.getD_some]

/-- A new block gets the next number. -/
theorem allocated (h : Refines s a) (hchains : Chains s) {size answer : ℕ}
    (hnone : s.blocks.get? answer = none) (hfree : s.blocks.Free answer size) :
    Refines (s.allocated () size answer hfree)
      ⟨a.born + 1, a.tracker.record (.allocated a.born size)⟩ where
  figures := h.figures.allocated answer a.born size
  born := congrArg (· + 1) h.born
  size hb := by
    change (a.tracker.liveObjs.insert a.born size)[_]? = _
    rw [getElem?_insert_nat]
    rcases get?_allocated hfree hb with ⟨-, rfl⟩ | hold
    · rw [if_pos h.born]
    · rw [if_neg (h.born ▸ (hchains.chain_lt hold).ne'), h.size hold]
  known hb := by
    change s.tracker.liveUnsafeObjs.contains _ = a.tracker.liveUnsafeObjs.contains _
    rcases get?_allocated hfree hb with ⟨rfl, rfl⟩ | hold
    · rw [h.fresh _ hnone, h.unborn _ h.born.le]
    · exact h.known hold
  fresh b hb := by
    change s.tracker.liveUnsafeObjs.contains b = false
    change (s.blocks.put answer _ hfree).get? b = none at hb
    rw [RangeMap.get?_put] at hb
    split at hb
    · simp at hb
    · exact h.fresh b hb
  unborn k hk := h.unborn k (Nat.le_of_succ_le hk)

theorem freed (h : Refines s a) (hchains : Chains s) {ptr : ℕ} {blk : Block Unit}
    (hblk : s.blocks.get? ptr = some blk) :
    Refines (s.freed () ptr) { a with tracker := a.tracker.record (.freed blk.chain) } where
  figures := h.figures.freed ptr blk.chain
  born := h.born.trans (s.noteRemoved_born () ptr).symm
  size hb := by
    obtain ⟨hne, hold⟩ := get?_freed hb
    change (a.tracker.liveObjs.erase blk.chain)[_]? = _
    rw [getElem?_erase_nat, if_neg (hchains.chain_inj hblk hold hne), h.size hold]
  known hb := by
    obtain ⟨hne, hold⟩ := get?_freed hb
    change (s.tracker.liveUnsafeObjs.erase ptr).contains _
      = (a.tracker.liveUnsafeObjs.erase blk.chain).contains _
    rw [contains_erase_nat, contains_erase_nat, h.known hold, decide_eq_false hne,
      decide_eq_false (hchains.chain_inj hblk hold hne)]
  fresh b hb := by
    change (s.tracker.liveUnsafeObjs.erase ptr).contains b = false
    change (s.blocks.erase ptr).get? b = none at hb
    rw [RangeMap.get?_erase] at hb
    rw [contains_erase_nat]
    split at hb
    · next heq => simp [heq]
    · simp [h.fresh b hb]
  unborn k hk := by
    change (a.tracker.liveUnsafeObjs.erase blk.chain).contains k = false
    rw [contains_erase_nat, h.unborn k hk, Bool.and_false]

/-- A block that is resized in place keeps what is known of it. -/
theorem resized (h : Refines s a) (hchains : Chains s) {ptr newSize : ℕ} {blk : Block Unit}
    (hblk : s.blocks.get? ptr = some blk) (hfree : (s.blocks.erase ptr).Free ptr newSize) :
    Refines (s.reallocated () ptr blk.size newSize ptr blk hfree)
      { a with tracker := a.tracker.record (.resized blk.chain blk.size newSize) } := by
  have htracker : (s.reallocated () ptr blk.size newSize ptr blk hfree).tracker
      = s.tracker.record (.resized ptr blk.size newSize) := by
    rw [Shared.reallocated, if_pos rfl]
    rfl
  constructor
  case figures =>
    rw [htracker]
    exact h.figures.resized ptr blk.chain blk.size newSize
  case born =>
    rw [Shared.reallocated_born]
    exact h.born
  case size =>
    intro b blk' hb
    rw [HeapTracker.liveObjs_record, getElem?_insert_nat]
    rcases get?_reallocated hfree hb with ⟨-, rfl⟩ | ⟨hne, hold⟩
    · rw [if_pos rfl]
    · rw [if_neg (hchains.chain_inj hblk hold hne), h.size hold]
  case known =>
    intro b blk' hb
    rw [htracker, HeapTracker.liveUnsafeObjs_record, HeapTracker.liveUnsafeObjs_record]
    rcases get?_reallocated hfree hb with ⟨rfl, rfl⟩ | ⟨hne, hold⟩
    · exact (h.known hblk : _ = a.tracker.liveUnsafeObjs.contains blk.chain)
    · exact h.known hold
  case fresh =>
    intro b hb
    rw [Shared.reallocated_blocks, RangeMap.get?_put] at hb
    rw [htracker, HeapTracker.liveUnsafeObjs_record]
    split at hb
    · simp at hb
    · next hne =>
      rw [RangeMap.get?_erase_of_ne hne] at hb
      exact h.fresh b hb
  case unborn =>
    intro k hk
    rw [HeapTracker.liveUnsafeObjs_record]
    exact h.unborn k hk

/-- A block that is moved is not known at its new address. -/
theorem moved (h : Refines s a) (hchains : Chains s) {ptr newSize answer : ℕ} {blk : Block Unit}
    (hblk : s.blocks.get? ptr = some blk) (hmoved : answer ≠ ptr)
    (hnone : (s.blocks.erase ptr).get? answer = none)
    (hfree : (s.blocks.erase ptr).Free answer newSize) :
    Refines (s.reallocated () ptr blk.size newSize answer blk hfree)
      { a with tracker := a.tracker.record (.moved blk.chain blk.chain blk.size newSize) } := by
  have htracker : (s.reallocated () ptr blk.size newSize answer blk hfree).tracker
      = s.tracker.record (.moved ptr answer blk.size newSize) := by
    rw [Shared.reallocated, if_neg hmoved]
    rfl
  rw [RangeMap.get?_erase_of_ne hmoved.symm] at hnone
  constructor
  case figures =>
    rw [htracker]
    exact h.figures.moved ptr blk.chain answer blk.chain blk.size newSize
  case born =>
    rw [Shared.reallocated_born]
    exact h.born
  case size =>
    intro b blk' hb
    rw [HeapTracker.liveObjs_record, getElem?_insert_nat]
    rcases get?_reallocated hfree hb with ⟨-, rfl⟩ | ⟨hne, hold⟩
    · rw [if_pos rfl]
    · have hother := hchains.chain_inj hblk hold hne
      rw [if_neg hother, getElem?_erase_nat, if_neg hother, h.size hold]
  case known =>
    intro b blk' hb
    rw [htracker, HeapTracker.liveUnsafeObjs_record, HeapTracker.liveUnsafeObjs_record,
      contains_erase_nat, contains_erase_nat]
    rcases get?_reallocated hfree hb with ⟨rfl, rfl⟩ | ⟨hne, hold⟩
    -- neither the new address nor the number is known: the old one has been forgotten
    · simp [h.fresh _ hnone]
    · rw [h.known hold, decide_eq_false hne, decide_eq_false (hchains.chain_inj hblk hold hne)]
  case fresh =>
    intro b hb
    rw [Shared.reallocated_blocks, RangeMap.get?_put] at hb
    rw [htracker, HeapTracker.liveUnsafeObjs_record, contains_erase_nat]
    split at hb
    · simp at hb
    · rw [RangeMap.get?_erase] at hb
      split at hb
      -- the old address has just been forgotten
      · next heq => simp [heq]
      · simp [h.fresh b hb]
  case unborn =>
    intro k hk
    rw [HeapTracker.liveUnsafeObjs_record, contains_erase_nat, h.unborn k hk, Bool.and_false]

/-- An access to a live block. -/
theorem unsafeAccessed (h : Refines s a) (hchains : Chains s) {base : ℕ} {blk : Block Unit}
    (hblk : s.blocks.get? base = some blk) (isLoad : Bool) {s' : State}
    (hblocks : s'.blocks = s.blocks) (hborn : s'.history.born = s.history.born)
    (htracker : s'.tracker = s.tracker.record (.unsafeAccessed base blk.size isLoad)) :
    Refines s' { a with tracker := a.tracker.record (.unsafeAccessed blk.chain blk.size isLoad) } := by
  constructor
  case figures =>
    rw [htracker]
    exact h.figures.unsafeAccessed blk.size isLoad (h.known hblk)
  case born =>
    rw [hborn]
    exact h.born
  case size =>
    intro b blk' hb
    rw [hblocks] at hb
    rw [HeapTracker.liveObjs_record]
    exact h.size hb
  case known =>
    intro b blk' hb
    rw [hblocks] at hb
    rw [htracker, HeapTracker.liveUnsafeObjs_record, HeapTracker.liveUnsafeObjs_record,
      contains_insert_nat, contains_insert_nat, h.known hb]
    by_cases hne : base = b
    · obtain rfl : blk = blk' := by
        subst hne
        exact Option.some.inj (hblk.symm.trans hb)
      simp [hne]
    · rw [decide_eq_false hne, decide_eq_false (hchains.chain_inj hblk hb hne)]
  case fresh =>
    intro b hb
    rw [hblocks] at hb
    have hne : base ≠ b := by
      rintro rfl
      simp [hb] at hblk
    rw [htracker, HeapTracker.liveUnsafeObjs_record, contains_insert_nat, h.fresh b hb,
      decide_eq_false hne, Bool.or_false]
  case unborn =>
    intro k hk
    have hne : blk.chain ≠ k := (hchains.chain_lt hblk).trans_le (h.born ▸ hk) |>.ne
    rw [HeapTracker.liveUnsafeObjs_record, contains_insert_nat, h.unborn k hk,
      decide_eq_false hne, Bool.or_false]

/-- Every call is a request of the tracker without a placement. -/
theorem effect (h : Refines s a) (hchains : Chains s) (hexact : Exact s) (call : Call)
    (hall : call.Allowed () s) :
    Refines (call.effect () s) (a.step (call.request s, call.moves s)) := by
  cases call with
  | alloc layout answer | allocZeroed layout answer =>
    rw [Call.effect, Call.request]
    split
    · next hgrant => exact h.allocated hchains hgrant.1 hgrant.2
    · exact h
  | dealloc ptr layout =>
    obtain ⟨blk, hblk, -⟩ := owns_iff.mp hall
    rw [Call.effect, Call.request, hblk]
    exact h.freed hchains hblk
  | realloc ptr layout newSize answer =>
    obtain ⟨blk, hblk, -, hsize⟩ := owns_iff.mp hall.1
    simp only [Call.effect, Call.request, Call.moves, Call.event, hblk]
    split
    · next hgrant =>
      rw [← hsize]
      -- the request is the same, the step looks at whether the block moves
      by_cases hmoved : answer = ptr
      · subst hmoved
        rw [if_pos rfl]
        simp only [Numbered.step, h.size_eq hblk]
        exact h.resized hchains hblk hgrant.2
      · rw [if_neg hmoved]
        simp only [Numbered.step, h.size_eq hblk]
        exact h.moved hchains hblk hmoved hgrant.1 hgrant.2
    · exact h
  | memAccess ptr =>
    rw [Call.effect, Call.request, hexact.lookup_eq_at?, Option.isSome_map]
    rcases s.blocks.at? ptr with _ | ⟨base, blk⟩
    · exact h
    · exact ⟨h.figures.accessed, h.born, h.size, h.known, h.fresh, h.unborn⟩
  | unsafeMemAccess ptr isLoad =>
    have htracker := (Call.unsafeMemAccess ptr isLoad).effect_tracker (t := ()) hexact
    rw [Call.event] at htracker
    rw [Call.request]
    cases hat : s.blocks.at? ptr with
    | none =>
      rw [Call.effect, hexact.lookup_eq_at?, hat]
      exact h
    | some entry =>
      obtain ⟨base, blk⟩ := entry
      obtain ⟨hblk, -⟩ := RangeMap.at?_eq_some_iff.mp hat
      rw [hat] at htracker
      simp only [Numbered.step, h.size_eq hblk]
      refine h.unsafeAccessed hchains hblk isLoad ?_ ?_ htracker
      · rw [Call.effect, hexact.lookup_eq_at?, hat]
        dsimp only [Option.map_some]
        split <;> rfl
      · rw [Call.effect, hexact.lookup_eq_at?, hat]
        dsimp only [Option.map_some]
        split
        · rfl
        · exact s.noteCounted_born base blk.size

theorem exec (h : Refines s a) (hchains : Chains s) (hexact : Exact s) (call : Call) :
    Refines (call.exec s) (a.step (call.placed s)) := by
  rw [Call.exec_eq, Call.placed]
  split
  · next hall => exact h.effect hchains hexact call hall
  · exact h

end Refines

/-! ## Runs -/

theorem placedFrom_append_singleton (s : State) (calls : List Call) (call : Call) :
    placedFrom s (calls ++ [call])
      = placedFrom s calls ++ [call.placed (calls.foldl Call.exec s)] := by
  induction calls generalizing s with
  | nil => rfl
  | cons c calls ih =>
    rw [List.cons_append, placedFrom, placedFrom, ih, List.foldl_cons, List.cons_append]

theorem placedFrom_take (s : State) (calls : List Call) (n : ℕ) :
    placedFrom s (calls.take n) = (placedFrom s calls).take n := by
  induction calls generalizing s n with
  | nil => simp [placedFrom]
  | cons call calls ih =>
    cases n with
    | zero => rfl
    | succ n => rw [List.take_succ_cons, placedFrom, placedFrom, List.take_succ_cons, ih]

/-- The figures of a run are those of its requests, with what the system did with each. -/
theorem refines_runCalls (calls : List Call) :
    Refines (runCalls calls) ((placed calls).foldl Numbered.step .new) := by
  induction calls using List.reverseRecOn with
  | nil => exact .new
  | append_singleton calls call ih =>
    rw [runCalls_append_singleton, placed, placedFrom_append_singleton, List.foldl_append]
    exact ih.exec (metered_runCalls calls).chains (exact_runCalls calls) call

theorem report_take (calls : List Call) (n : ℕ) :
    (runCalls (calls.take n)).tracker.report
      = (((placed calls).take n).foldl Numbered.step .new).tracker.report := by
  have hrefines := refines_runCalls (calls.take n)
  rw [placed, placedFrom_take] at hrefines
  exact hrefines.figures.report_eq

/-- Only a resize moves a block. -/
theorem Call.exists_resize_of_moves {s : State} {call : Call} (h : call.moves s = true) :
    ∃ block newSize, call.request s = .resize block newSize := by
  cases call with
  | realloc ptr layout newSize answer =>
    cases hblk : s.blocks.get? ptr with
    | none => simp [moves, event, hblk] at h
    | some blk =>
      refine ⟨blk.chain, newSize, ?_⟩
      simp only [moves, event, hblk] at h
      simp only [request, hblk]
      grind
  | alloc | allocZeroed | dealloc | memAccess | unsafeMemAccess =>
    unfold moves event at h
    grind

theorem exists_resize_of_mem_placedFrom {s : State} {calls : List Call} {p : Request × Bool}
    (hp : p ∈ placedFrom s calls) (hmoved : p.2 = true) :
    ∃ block newSize, p.1 = .resize block newSize := by
  induction calls generalizing s with
  | nil => simp [placedFrom] at hp
  | cons call calls ih =>
    rw [placedFrom, List.mem_cons, Call.placed] at hp
    rcases hp with rfl | hp
    · split at hmoved
      · next hall =>
        rw [if_pos hall]
        exact Call.exists_resize_of_moves hmoved
      · simp at hmoved
    · exact ih hp

/-- A resize that moves its block is counted, and one in place is not. -/
theorem report_step_resize_ne (a : Numbered) (block newSize : ℕ) :
    (a.step (.resize block newSize, true)).tracker.report
      ≠ (a.step (.resize block newSize, false)).tracker.report := by
  intro heq
  have hcount := congrFun (congrArg Report.counters heq) .totalRealloc
  have hmoved : (a.step (.resize block newSize, true)).tracker.report.counters .totalRealloc
      = (a.tracker.counters .totalRealloc + 1) % 2 ^ 64 :=
    a.tracker.counters_record (c := .totalRealloc) (by decide) (.moved block block _ newSize)
  have hstayed : (a.step (.resize block newSize, false)).tracker.report.counters .totalRealloc
      = a.tracker.counters .totalRealloc :=
    a.tracker.counters_record (c := .totalRealloc) (by decide) (.resized block _ newSize)
  rw [hmoved, hstayed] at hcount
  omega

/-- The figures tell whether a request moved its block. -/
theorem moved_eq_of_report_step_eq {a : Numbered} {r : Request} {moved₁ moved₂ : Bool}
    (hresize : moved₁ = true ∨ moved₂ = true → ∃ block newSize, r = .resize block newSize)
    (hreport : (a.step (r, moved₁)).tracker.report = (a.step (r, moved₂)).tracker.report) :
    moved₁ = moved₂ := by
  by_contra hne
  obtain ⟨block, newSize, rfl⟩ := hresize (by cases moved₁ <;> cases moved₂ <;> simp_all)
  cases moved₁ <;> cases moved₂
  · exact hne rfl
  · exact report_step_resize_ne a block newSize hreport.symm
  · exact report_step_resize_ne a block newSize hreport
  · exact hne rfl

/-- Two runs of the same requests have the same figures at every moment just if each resize moves
its block in both runs or in neither. -/
theorem report_independent_iff (calls₁ calls₂ : List Call)
    (hsame : requests calls₁ = requests calls₂) :
    (∀ n, (runCalls (calls₁.take n)).tracker.report = (runCalls (calls₂.take n)).tracker.report) ↔
      moves calls₁ = moves calls₂ := by
  have hlength : (placed calls₁).length = (placed calls₂).length := by
    simpa [requests] using congrArg List.length hsame
  have hrequest : ∀ (n : ℕ) (h₁ : n < (placed calls₁).length) (h₂ : n < (placed calls₂).length),
      (placed calls₁)[n].1 = (placed calls₂)[n].1 := by
    intro n h₁ h₂
    have hget := congrArg (·[n]?) hsame
    simpa [requests, h₁, h₂] using hget
  constructor
  · intro hreports
    -- the runs agree on the first `n` requests, and the figures after the next decide on it
    have hplaced : ∀ n, (placed calls₁).take n = (placed calls₂).take n := by
      intro n
      induction n with
      | zero => rfl
      | succ n ih =>
        by_cases hn : n < (placed calls₁).length
        · have hn' : n < (placed calls₂).length := hlength ▸ hn
          have hreport := hreports (n + 1)
          rw [report_take, report_take, List.take_succ_eq_append_getElem hn,
            List.take_succ_eq_append_getElem hn', ih, List.foldl_append, List.foldl_append] at hreport
          have hmoved : (placed calls₁)[n].2 = (placed calls₂)[n].2 := by
            refine moved_eq_of_report_step_eq (r := (placed calls₁)[n].1) ?_
              (hreport.trans (by rw [hrequest n hn hn']; rfl))
            rintro (htrue | htrue)
            · exact exists_resize_of_mem_placedFrom (List.getElem_mem hn) htrue
            · rw [hrequest n hn hn']
              exact exists_resize_of_mem_placedFrom (List.getElem_mem hn') htrue
          rw [List.take_succ_eq_append_getElem hn, List.take_succ_eq_append_getElem hn', ih,
            Prod.ext (hrequest n hn hn') hmoved]
        · rw [List.take_of_length_le (by omega), List.take_of_length_le (by omega)]
          rwa [List.take_of_length_le (by omega), List.take_of_length_le (by omega)] at ih
    have hall := hplaced (placed calls₁).length
    rw [List.take_length, List.take_of_length_le hlength.ge] at hall
    rw [moves, moves, hall]
  · intro hmoves n
    have hall : placed calls₁ = placed calls₂ := by
      refine List.ext_getElem hlength fun n h₁ h₂ ↦ Prod.ext (hrequest n h₁ h₂) ?_
      have hget := congrArg (·[n]?) hmoves
      simpa [moves, h₁, h₂] using hget
    rw [report_take, report_take, hall]

/-- A block grows, is accessed and freed, at one address. -/
def grownHere : List Call :=
  [.alloc ⟨100⟩ 4096, .realloc 4096 ⟨100⟩ 200 4096, .unsafeMemAccess 4104 true, .dealloc 4096 ⟨200⟩]

/-- The same requests, with the block at another address. -/
def grownThere : List Call :=
  [.alloc ⟨100⟩ 65536, .realloc 65536 ⟨100⟩ 200 65536, .unsafeMemAccess 65544 true,
    .dealloc 65536 ⟨200⟩]

/-- The same requests, with the block moved when it grows. -/
def grownAndMoved : List Call :=
  [.alloc ⟨100⟩ 4096, .realloc 4096 ⟨100⟩ 200 8192, .unsafeMemAccess 8200 true,
    .dealloc 8192 ⟨200⟩]

theorem report_independent_iff_grownHere : requests grownHere = requests grownThere ∧
    (runCalls (grownHere.take 4)).tracker.report
      = (runCalls (grownThere.take 4)).tracker.report := by
  have hsame : requests grownHere = requests grownThere := by decide +kernel
  exact ⟨hsame, (report_independent_iff grownHere grownThere hsame).mpr (by decide +kernel) 4⟩

theorem report_depends_on_placement :
    ¬∀ calls₁ calls₂ : List Call, requests calls₁ = requests calls₂ →
      (runCalls calls₁).tracker.report = (runCalls calls₂).tracker.report := by
  intro h
  have hreport := h grownHere grownAndMoved (by decide +kernel)
  have hhere : (runCalls grownHere).tracker.report.counters .totalRealloc = 0 := by decide +kernel
  have hmoved : (runCalls grownAndMoved).tracker.report.counters .totalRealloc = 1 := by
    decide +kernel
  rw [hreport, hmoved] at hhere
  exact absurd hhere (by decide)

end UnsafePerf.Heap
