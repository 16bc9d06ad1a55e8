import UnsafePerf.Heap.LiveObjects
import UnsafePerf.Concurrency.RelyGuarantee

/-!
# The map of live objects under concurrency

Every call is several atomic steps around a step of the system allocator, and any number of threads
interleave theirs. `dealloc` removes the entry while the block is still its own, and `alloc` inserts
it when the block is its own already. A `realloc` that moves removes the old entry after the system
has freed the old range. Another thread may have been given that range and recorded its block in
the meantime; the removal then takes the record of that block.

This is the only way to lose an entry. In a run in which no such removal happens the map is exact
whenever all threads are between calls. The live blocks meant here are those of the system allocator;
that these are what the threads hold by their calls is `blocks_held`.

## The contract

A block is *recorded* unless it is in `unrecorded`, which only its owner changes. The invariant says
that recorded blocks are in the map with their sizes, and that an entry at an address with no block
is left over from a block that its thread has just moved away. A thread relies on its own blocks.
-/

open Concurrency Ranges

namespace UnsafePerf.Heap

section Contract

variable {τ : Type}

/-- The invariant of the shared state. -/
structure Inv (s : Shared τ) : Prop where
  /-- Recorded blocks are in the map, unless a removal has taken the record of another's block. -/
  recorded : s.history.clobbered = [] → ∀ {b : ℕ} {blk : Block τ}, s.blocks.get? b = some blk →
    b ∉ s.history.unrecorded → s.tracker.liveObjs[b]? = some blk.size
  /-- Where there is no block there is no entry, unless a thread has still to remove it. -/
  dead : ∀ {b : ℕ}, s.blocks.get? b = none →
    s.tracker.liveObjs[b]? = none ∨ ∃ t, s.history.stale t = some b

/-- What the other threads leave alone. -/
structure Rely (t : τ) (s s' : Shared τ) : Prop where
  blocks : ∀ {b : ℕ} {blk : Block τ}, blk.owner = t →
    (s'.blocks.get? b = some blk ↔ s.blocks.get? b = some blk)
  unrecorded : ∀ {b : ℕ} {blk : Block τ}, s.blocks.get? b = some blk → blk.owner = t →
    (b ∈ s'.history.unrecorded ↔ b ∈ s.history.unrecorded)
  removed : ∀ {b : ℕ} {blk : Block τ}, s.blocks.get? b = some blk → blk.owner = t →
    s.tracker.liveObjs[b]? = none → s'.tracker.liveObjs[b]? = none
  stale : s'.history.stale t = s.history.stale t

theorem Rely.refl (t : τ) (s : Shared τ) : Rely t s s :=
  ⟨fun _ ↦ .rfl, fun _ _ ↦ .rfl, fun _ _ h ↦ h, rfl⟩

theorem Rely.trans {t : τ} {s₁ s₂ s₃ : Shared τ} (h : Rely t s₁ s₂) (h' : Rely t s₂ s₃) :
    Rely t s₁ s₃ where
  blocks hown := (h'.blocks hown).trans (h.blocks hown)
  unrecorded hb hown := (h'.unrecorded ((h.blocks hown).mpr hb) hown).trans (h.unrecorded hb hown)
  removed hb hown hnone := h'.removed ((h.blocks hown).mpr hb) hown (h.removed hb hown hnone)
  stale := h'.stale.trans h.stale

/-- The contract of the tracker. -/
def contract : Contract τ (Shared τ) where
  inv := Inv
  rely := Rely
  rely_refl := Rely.refl
  rely_trans := Rely.trans

theorem Inv.new : Inv (.new : Shared τ) where
  recorded _ _ _ hb := absurd hb (by simp [Shared.new])
  dead _ := .inl (by simp [Shared.new, HeapTracker.new])

/-! ## What a thread knows between two of its steps -/

/-- The thread is between calls: its blocks are recorded and it has nothing to remove. -/
structure Clear (t : τ) (s : Shared τ) : Prop where
  stale : s.history.stale t = none
  recorded : ∀ {b : ℕ} {blk : Block τ}, s.blocks.get? b = some blk → blk.owner = t →
    b ∉ s.history.unrecorded

/-- The thread owns the block at `ptr`, which need not be recorded, and has the entry at `old`, if
any, to remove. -/
structure Busy (t : τ) (old : Option ℕ) (ptr size : ℕ) (s : Shared τ) : Prop where
  stale : s.history.stale t = old
  left : ∀ {b : ℕ} {blk : Block τ}, old = some b → s.blocks.get? b = some blk → blk.owner ≠ t
  block : ∃ blk, s.blocks.get? ptr = some blk ∧ blk.owner = t ∧ blk.size = size
  recorded : ∀ {b : ℕ} {blk : Block τ}, s.blocks.get? b = some blk → blk.owner = t → b ≠ ptr →
    b ∉ s.history.unrecorded

variable {t : τ} {old : Option ℕ} {ptr size : ℕ} {s s' : Shared τ}

theorem Clear.rely (h : Clear t s) (hr : Rely t s s') : Clear t s' where
  stale := hr.stale.trans h.stale
  recorded hb hown := by
    have hb' := (hr.blocks hown).mp hb
    rw [hr.unrecorded hb' hown]
    exact h.recorded hb' hown

theorem Busy.rely (h : Busy t old ptr size s) (hr : Rely t s s') : Busy t old ptr size s' where
  stale := hr.stale.trans h.stale
  left hold hb hown := h.left hold ((hr.blocks hown).mp hb) hown
  block := by
    obtain ⟨blk, hb, hown, hsize⟩ := h.block
    exact ⟨blk, (hr.blocks hown).mpr hb, hown, hsize⟩
  recorded hb hown hne := by
    have hb' := (hr.blocks hown).mp hb
    rw [hr.unrecorded hb' hown]
    exact h.recorded hb' hown hne

/-- A call on one of one's own blocks. -/
theorem Clear.busy (h : Clear t s)
    (hblock : ∃ blk, s.blocks.get? ptr = some blk ∧ blk.owner = t ∧ blk.size = size) :
    Busy t none ptr size s where
  stale := h.stale
  left := nofun
  block := hblock
  recorded hb hown _ := h.recorded hb hown

end Contract

/-! ## Honest steps -/

section HonestSteps

variable {τ : Type} {t : τ} {old : Option ℕ} {ptr size answer : ℕ} {s : Shared τ}

/-- A step that leaves the live objects, the blocks and what is recorded alone. -/
structure Quiet (s s' : Shared τ) : Prop where
  live : s'.tracker.liveObjs = s.tracker.liveObjs
  blocks : s'.blocks = s.blocks
  unrecorded : s'.history.unrecorded = s.history.unrecorded
  stale : s'.history.stale = s.history.stale
  clobbered : s'.history.clobbered = s.history.clobbered

theorem Quiet.rely {s' : Shared τ} (h : Quiet s s') (t : τ) : Rely t s s' where
  blocks _ := by rw [h.blocks]
  unrecorded _ _ := by rw [h.unrecorded]
  removed _ _ hnone := by rwa [h.live]
  stale := by rw [h.stale]

theorem Quiet.honest {s' : Shared τ} (h : Quiet s s') (hi : Inv s) : contract.Honest t s s' := by
  refine ⟨⟨fun hc b blk hb hun ↦ ?_, fun hb ↦ ?_⟩, fun u _ ↦ h.rely u⟩
  · rw [h.live]
    rw [h.clobbered] at hc
    rw [h.blocks] at hb
    rw [h.unrecorded] at hun
    exact hi.recorded hc hb hun
  · rw [h.live, h.stale]
    rw [h.blocks] at hb
    exact hi.dead hb

/-- The system hands out a new block. -/
theorem honest_obtained (hi : Inv s) (hc : Clear t s) (hnone : s.blocks.get? answer = none)
    (hfree : s.blocks.Free answer size) :
    contract.Honest t s (s.obtained t size answer hfree) ∧
      Busy t none answer size (s.obtained t size answer hfree) := by
  set s' := s.obtained t size answer hfree with hs'
  have hget : ∀ b, s'.blocks.get? b
      = if answer = b then some ⟨size, t, s.history.born⟩ else s.blocks.get? b :=
    fun b ↦ RangeMap.get?_put hfree
  have hun : ∀ {b}, b ≠ answer → (b ∈ s'.history.unrecorded ↔ b ∈ s.history.unrecorded) :=
    fun hne ↦ by simp [hs', Shared.obtained, hne]
  have hold : ∀ {b blk}, b ≠ answer → s'.blocks.get? b = some blk → s.blocks.get? b = some blk := by
    intro b blk hne hb
    rwa [hget, if_neg hne.symm] at hb
  have hne : ∀ {b blk}, s.blocks.get? b = some blk → b ≠ answer := by
    rintro b blk hb rfl
    exact absurd (hb.symm.trans hnone) (by simp)
  refine ⟨⟨⟨fun hclean b blk hb hrec ↦ ?_, fun {b} hb ↦ ?_⟩, fun u hu ↦
    ⟨fun {b blk} hown ↦ ?_, fun hb _ ↦ hun (hne hb), fun _ _ h ↦ h, rfl⟩⟩,
    ⟨hc.stale, fun h ↦ absurd h (by simp), ⟨_, (hget answer).trans (if_pos rfl), rfl, rfl⟩,
      fun hb hown hne' ↦ ?_⟩⟩
  · have hb' : b ≠ answer := by
      rintro rfl
      exact hrec (Finset.mem_insert_self _ _)
    exact hi.recorded hclean (hold hb' hb) (mt (hun hb').mpr hrec)
  · rw [hget] at hb
    split at hb
    · exact absurd hb (by simp)
    · exact hi.dead hb
  · rw [hget]
    split
    · next heq =>
      subst heq
      rw [hnone]
      have hother : (⟨size, t, s.history.born⟩ : Block τ) ≠ blk := by
        rintro rfl
        exact hu hown.symm
      simp [hother]
    · rfl
  · rw [hun hne']
    exact hc.recorded (hold hne' hb) hown

/-- Inserting the entry of one's own block. -/
theorem honest_liveInsert (hi : Inv s) (hb : Busy t none ptr size s) :
    let s' := { s with
      tracker := s.tracker.insertLive ptr size
      history := { s.history with unrecorded := s.history.unrecorded.erase ptr } }
    contract.Honest t s s' ∧ Clear t s' := by
  intro s'
  obtain ⟨own, hptr, hown, hsize⟩ := hb.block
  have hlive : ∀ b : ℕ, s'.tracker.liveObjs[b]?
      = if ptr = b then some size else s.tracker.liveObjs[b]? := fun b ↦ getElem?_insert_nat
  have hun : ∀ {b}, b ≠ ptr → (b ∈ s'.history.unrecorded ↔ b ∈ s.history.unrecorded) :=
    fun hne ↦ by simp [s', hne]
  have hne : ∀ {b blk u}, u ≠ t → s.blocks.get? b = some blk → blk.owner = u → b ≠ ptr := by
    rintro b blk u hu hb' rfl rfl
    rw [hptr, Option.some_inj] at hb'
    exact hu (hb' ▸ hown)
  refine ⟨⟨⟨fun hclean b blk hb' hrec ↦ ?_, fun {b} hb' ↦ ?_⟩, fun u hu ↦
    ⟨fun _ ↦ .rfl, fun hb' hown' ↦ hun (hne hu hb' hown'), fun {b blk} hb' hown' hnone ↦ ?_, rfl⟩⟩,
    ⟨hb.stale, fun {b blk} hb' hown' ↦ ?_⟩⟩
  · rw [hlive]
    by_cases hbp : ptr = b
    · subst hbp
      change s.blocks.get? ptr = _ at hb'
      rw [if_pos rfl, ← hsize, Option.some.inj (hptr.symm.trans hb')]
    · rw [if_neg hbp]
      exact hi.recorded hclean hb' (mt (hun (Ne.symm hbp)).mpr hrec)
  · have hbp : ptr ≠ b := by
      rintro rfl
      exact absurd (hptr.symm.trans hb') (by simp)
    rw [hlive, if_neg hbp]
    exact hi.dead hb'
  · rw [hlive, if_neg (hne hu hb' hown').symm]
    exact hnone
  · by_cases hbp : b = ptr
    · exact hbp ▸ Finset.notMem_erase _ _
    · rw [hun hbp]
      exact hb.recorded hb' hown' hbp

/-- The system takes back a block whose entry is removed. -/
theorem honest_systemDealloc (hi : Inv s) (hb : Busy t none ptr size s)
    (hnone : s.tracker.liveObjs[ptr]? = none) :
    let s' := { s with
      blocks := s.blocks.erase ptr
      history := { s.history with unrecorded := s.history.unrecorded.erase ptr } }
    contract.Honest t s s' ∧ Clear t s' := by
  intro s'
  obtain ⟨own, hptr, hown, -⟩ := hb.block
  have hget : ∀ {b blk}, s'.blocks.get? b = some blk ↔ ptr ≠ b ∧ s.blocks.get? b = some blk := by
    intro b blk
    change (s.blocks.erase ptr).get? b = _ ↔ _
    rw [RangeMap.get?_erase, Option.ite_none_left_eq_some]
  have hun : ∀ {b}, b ≠ ptr → (b ∈ s'.history.unrecorded ↔ b ∈ s.history.unrecorded) :=
    fun hne ↦ by simp [s', hne]
  have hne : ∀ {b blk u}, u ≠ t → s.blocks.get? b = some blk → blk.owner = u → ptr ≠ b := by
    rintro b blk u hu hb' rfl rfl
    rw [hptr, Option.some_inj] at hb'
    exact hu (hb' ▸ hown)
  refine ⟨⟨⟨fun hclean b blk hb' hrec ↦ ?_, fun {b} hb' ↦ ?_⟩, fun u hu ↦
    ⟨fun hown' ↦ hget.trans (and_iff_right_of_imp fun hb' ↦ hne hu hb' hown'),
      fun hb' hown' ↦ hun (hne hu hb' hown').symm, fun _ _ h ↦ h, rfl⟩⟩,
    ⟨hb.stale, fun hb' hown' ↦ ?_⟩⟩
  · obtain ⟨hbp, hb'⟩ := hget.mp hb'
    exact hi.recorded hclean hb' (mt (hun hbp.symm).mpr hrec)
  · by_cases hbp : ptr = b
    · exact .inl (hbp ▸ hnone)
    · change (s.blocks.erase ptr).get? b = none at hb'
      rw [RangeMap.get?_erase_of_ne hbp] at hb'
      exact hi.dead hb'
  · obtain ⟨hbp, hb'⟩ := hget.mp hb'
    rw [hun hbp.symm]
    exact hb.recorded hb' hown' hbp.symm

variable [DecidableEq τ]

/-- Removing an entry, of one's own block or of an address one has left. -/
theorem honest_liveRemove (hi : Inv s) (hstale : ∀ {b}, s.history.stale t = some b → b = ptr) :
    let s' := { s with
      tracker := s.tracker.removeLive ptr
      history := s.noteRemoved t ptr }
    contract.Honest t s s' := by
  intro s'
  have hlive : ∀ b : ℕ, s'.tracker.liveObjs[b]?
      = if ptr = b then none else s.tracker.liveObjs[b]? := fun b ↦ getElem?_erase_nat
  have hun : ∀ {b blk u}, u ≠ t → s.blocks.get? b = some blk → blk.owner = u →
      (b ∈ s'.history.unrecorded ↔ b ∈ s.history.unrecorded) := by
    intro b blk u hu hb hown
    refine s.mem_noteRemoved_unrecorded t ptr |>.trans (or_iff_left ?_)
    rintro ⟨rfl, blk', hb', hown'⟩
    rw [Option.mem_def, hb, Option.some_inj] at hb'
    exact hu (hown.symm.trans (hb' ▸ hown'))
  have hstale' : s'.history.stale = Function.update s.history.stale t none :=
    s.noteRemoved_stale t ptr
  refine ⟨⟨fun hclean b blk hb hrec ↦ ?_, fun {b} hb ↦ ?_⟩, fun u hu ↦
    ⟨fun _ ↦ .rfl, fun hb hown ↦ hun hu hb hown, fun _ _ hnone ↦ ?_, ?_⟩⟩
  · obtain ⟨hclean', hharmless⟩ := (s.noteRemoved_clobbered_eq_nil t ptr).mp hclean
    have hrec' := mt (s.mem_noteRemoved_unrecorded t ptr).mpr hrec
    have hbp : ptr ≠ b := by
      rintro rfl
      -- the block at this address would be one's own or not recorded
      rcases hharmless blk hb with hown | hmem
      · exact hrec' (.inr ⟨rfl, blk, hb, hown⟩)
      · exact hrec' (.inl hmem)
    rw [hlive, if_neg hbp]
    exact hi.recorded hclean' hb fun hmem ↦ hrec' (.inl hmem)
  · rw [hlive, hstale']
    by_cases hbp : ptr = b
    · exact .inl (if_pos hbp)
    · rw [if_neg hbp]
      rcases hi.dead hb with hlost | ⟨u, hu⟩
      · exact .inl hlost
      refine .inr ⟨u, ?_⟩
      have hut : u ≠ t := by
        rintro rfl
        exact hbp (hstale hu).symm
      rwa [Function.update_of_ne hut]
  · rw [hlive, hnone, ite_self]
  · rw [hstale', Function.update_of_ne hu]

section Resized

variable {newSize : ℕ} {blk : Block τ} {hfree : (s.blocks.erase ptr).Free answer newSize} {b : ℕ}

theorem get?_resized (b : ℕ) : (s.resized t ptr newSize answer blk hfree).blocks.get? b =
    if answer = b then some { blk with size := newSize }
    else if ptr = b then none else s.blocks.get? b := by
  rw [← RangeMap.get?_erase]
  exact RangeMap.get?_put hfree

theorem get?_of_resized {blk' : Block τ} (hne : answer ≠ b)
    (hb : (s.resized t ptr newSize answer blk hfree).blocks.get? b = some blk') :
    ptr ≠ b ∧ s.blocks.get? b = some blk' := by
  rwa [get?_resized, if_neg hne, Option.ite_none_left_eq_some] at hb

theorem mem_unrecorded_resized (hne : answer ≠ b) (hne' : ptr ≠ b) :
    b ∈ (s.resized t ptr newSize answer blk hfree).history.unrecorded ↔
      b ∈ s.history.unrecorded := by
  simp [Shared.resized, Shared.noteResize, hne.symm, hne'.symm]

theorem stale_resized (hstale : s.history.stale t = none) :
    (s.resized t ptr newSize answer blk hfree).history.stale t =
      if answer = ptr then none else some ptr := by
  simp only [Shared.resized, Shared.noteResize]
  split
  · exact hstale
  · exact Function.update_self ..

theorem stale_resized_of_ne {u : τ} (hu : u ≠ t) :
    (s.resized t ptr newSize answer blk hfree).history.stale u = s.history.stale u := by
  simp only [Shared.resized, Shared.noteResize]
  split
  · rfl
  · exact Function.update_of_ne hu ..

end Resized

omit [DecidableEq τ] in
/-- The blocks of the others are neither at the old base nor at the new one. -/
theorem ne_of_resized {blk blk' : Block τ} {b : ℕ} (hblk : s.blocks.get? ptr = some blk)
    (hnone : (s.blocks.erase ptr).get? answer = none) (hb : s.blocks.get? b = some blk')
    (howner : blk'.owner ≠ blk.owner) : answer ≠ b ∧ ptr ≠ b := by
  have hptr : ptr ≠ b := by
    rintro rfl
    rw [hblk, Option.some_inj] at hb
    exact howner (congrArg Block.owner hb.symm)
  refine ⟨?_, hptr⟩
  rintro rfl
  rw [RangeMap.get?_erase_of_ne hptr, hb] at hnone
  exact absurd hnone (by simp)

/-- The system resizes a block. -/
theorem honest_resized {newSize : ℕ} {blk : Block τ} (hi : Inv s) (hc : Clear t s)
    (hblk : s.blocks.get? ptr = some blk) (hown : blk.owner = t)
    (hnone : (s.blocks.erase ptr).get? answer = none)
    (hfree : (s.blocks.erase ptr).Free answer newSize) :
    contract.Honest t s (s.resized t ptr newSize answer blk hfree) ∧
      Busy t (if answer = ptr then none else some ptr) answer newSize
        (s.resized t ptr newSize answer blk hfree) := by
  -- the blocks of the other threads are elsewhere
  have hne : ∀ {b blk' u}, u ≠ t → s.blocks.get? b = some blk' → blk'.owner = u →
      answer ≠ b ∧ ptr ≠ b := by
    intro b blk' u hu hb hown'
    refine ne_of_resized hblk hnone hb ?_
    rwa [hown, hown']
  refine ⟨⟨⟨fun hclean b blk' hb hrec ↦ ?_, fun {b} hb ↦ ?_⟩, fun u hu ↦
    ⟨fun {b blk'} hown' ↦ ?_, fun hb hown' ↦
      mem_unrecorded_resized (hne hu hb hown').1 (hne hu hb hown').2, fun _ _ h ↦ h, ?_⟩⟩,
    ⟨stale_resized hc.stale, fun {b blk'} hold' hb hown' ↦ ?_,
      ⟨_, (get?_resized answer).trans (if_pos rfl), hown, rfl⟩, fun {b blk'} hb hown' hba ↦ ?_⟩⟩
  · have hba : answer ≠ b := by
      rintro rfl
      exact hrec (Finset.mem_insert_self _ _)
    obtain ⟨hbp, hb'⟩ := get?_of_resized hba hb
    exact hi.recorded hclean hb' (mt (mem_unrecorded_resized hba hbp).mpr hrec)
  · rw [get?_resized] at hb
    by_cases hba : answer = b
    · rw [if_pos hba] at hb
      exact absurd hb (by simp)
    · rw [if_neg hba] at hb
      by_cases hbp : ptr = b
      · -- the entry of the moved block is still there
        subst hbp
        exact .inr ⟨t, (stale_resized hc.stale).trans (if_neg hba)⟩
      · rw [if_neg hbp] at hb
        rcases hi.dead hb with hlost | ⟨u, hu⟩
        · exact .inl hlost
        refine .inr ⟨u, ?_⟩
        have hut : u ≠ t := by
          rintro rfl
          exact absurd (hc.stale.symm.trans hu) (by simp)
        rw [stale_resized_of_ne hut, hu]
  · constructor
    · intro hb
      by_cases hba : answer = b
      · rw [get?_resized, if_pos hba, Option.some_inj] at hb
        exact absurd (hown'.symm.trans (hb ▸ hown)) hu
      · exact (get?_of_resized hba hb).2
    · intro hb
      obtain ⟨hba, hbp⟩ := hne hu hb hown'
      rw [get?_resized, if_neg hba, if_neg hbp, hb]
  · exact stale_resized_of_ne hu
  · obtain ⟨hmoved, heq⟩ := Option.ite_none_left_eq_some.mp hold'
    rw [← Option.some.inj heq, get?_resized, if_neg hmoved, if_pos rfl] at hb
    exact absurd hb (by simp)
  · obtain ⟨hbp, hb'⟩ := get?_of_resized hba.symm hb
    rw [mem_unrecorded_resized hba.symm hbp]
    exact hc.recorded hb' hown'

end HonestSteps

/-! ## Every call may run -/

section Calls

variable {τ α : Type} {t : τ} {old : Option ℕ} {ptr size answer : ℕ} {s : Shared τ}

/-- A thread is never in the way of its own quiet steps. -/
theorem wp_quiet {f : Shared τ → α × Shared τ} {P : Shared τ → Prop}
    (hstable : ∀ {s s'}, P s → Rely t s s' → P s') (hquiet : ∀ s, Quiet s (f s).2) (h : P s) :
    contract.wp t (.rmw f) (fun _ s ↦ P s) s := by
  refine Contract.wp_rmw fun s₁ hr₁ hi₁ ↦ ⟨(hquiet s₁).honest hi₁, fun s₂ hr₂ _ ↦ ?_⟩
  exact hstable (hstable (hstable h hr₁) ((hquiet s₁).rely t)) hr₂

theorem wp_fetchAdd {P : Shared τ → Prop} (hstable : ∀ {s s'}, P s → Rely t s s' → P s')
    (c : HeapCounter) (n : ℕ) (h : P s) : contract.wp t (fetchAdd t c n) (fun _ s ↦ P s) s :=
  wp_quiet hstable (fun _ ↦ ⟨rfl, rfl, rfl, rfl, rfl⟩) h

theorem wp_classifyObjBySize {P : Shared τ → Prop} (hstable : ∀ {s s'}, P s → Rely t s s' → P s')
    (isUnsafe : Bool) (h : P s) :
    contract.wp t (classifyObjBySize t size isUnsafe) (fun _ s ↦ P s) s :=
  wp_quiet hstable (fun s ↦ ⟨s.tracker.liveObjs_classify size isUnsafe, rfl, rfl, rfl, rfl⟩) h

theorem wp_countUnsafeMem (base : ℕ) (hc : Clear t s) :
    contract.wp t (countUnsafeMem t base size) (fun _ s ↦ Clear t s) s :=
  wp_quiet Clear.rely (fun s ↦ ⟨rfl, rfl, s.noteCounted_unrecorded base size,
    s.noteCounted_stale base size, s.noteCounted_clobbered base size⟩) hc

theorem wp_insertObj (hb : Busy t none ptr size s) :
    contract.wp t ((insertObj t ptr size).run false) (fun r s ↦ r.2 = false ∧ Clear t s) s := by
  have hrun : (insertObj t ptr size).run false
      = (fun _ ↦ ((), false)) <$> liveInsert t ptr size := rfl
  rw [hrun]
  refine Contract.wp_map (Contract.wp_store fun s₁ hr₁ hi₁ ↦ ?_)
  obtain ⟨hhonest, hclear⟩ := honest_liveInsert hi₁ (hb.rely hr₁)
  exact ⟨hhonest, fun s₂ hr₂ _ ↦ ⟨rfl, hclear.rely hr₂⟩⟩

/-- The adjustment at the end of a reallocation. -/
theorem wp_adjust (oldSize newSize : ℕ) (hc : Clear t s) :
    contract.wp t (if newSize > oldSize then fetchAdd t .totalUsage (newSize - oldSize)
      else fetchSub t .totalUsage (oldSize - newSize)) (fun _ s ↦ Clear t s) s := by
  split
  · exact wp_fetchAdd Clear.rely _ _ hc
  · exact wp_quiet Clear.rely (fun _ ↦ ⟨rfl, rfl, rfl, rfl, rfl⟩) hc

theorem wp_systemAlloc (hc : Clear t s) :
    contract.wp t (systemAlloc t size answer)
      (fun ptr s ↦ ptr = 0 ∧ Clear t s ∨ ptr ≠ 0 ∧ Busy t none ptr size s) s := by
  refine Contract.wp_rmw fun s₁ hr₁ hi₁ ↦ ?_
  have hc₁ := hc.rely hr₁
  by_cases h : s₁.blocks.get? answer = none ∧ s₁.blocks.Free answer size
  · obtain ⟨hhonest, hbusy⟩ := honest_obtained hi₁ hc₁ h.1 h.2
    rw [dif_pos h]
    exact ⟨hhonest, fun s₂ hr₂ _ ↦ .inr ⟨Nat.pos_iff_ne_zero.mp h.2.1.1, hbusy.rely hr₂⟩⟩
  · rw [dif_neg h]
    exact ⟨⟨hi₁, fun u _ ↦ Rely.refl u s₁⟩, fun s₂ hr₂ _ ↦ .inl ⟨rfl, hc₁.rely hr₂⟩⟩

theorem alloc_run (layout : Layout) :
    (Heap.alloc t layout answer).run false = (do
      let ptr ← systemAlloc t layout.size answer
      if ptr = 0 then return (ptr, false)
      else
        fetchAdd t .totalUsage layout.size
        fetchAdd t .totalAlloc 1
        classifyObjBySize t layout.size false
        (fun r ↦ (ptr, r.2)) <$> (insertObj t ptr layout.size).run false) := by
  simp only [Heap.alloc, ThreadM.run_bind, ThreadM.run_lift, ThreadM.run_get, bind_assoc,
    Program.done_bind]
  refine bind_congr fun ptr ↦ ?_
  by_cases hnull : ptr = 0 <;> simp [hnull]

theorem wp_alloc (layout : Layout) (hc : Clear t s) :
    contract.wp t ((Heap.alloc t layout answer).run false)
      (fun r s ↦ r.2 = false ∧ Clear t s) s := by
  rw [alloc_run]
  refine Contract.wp_seq (wp_systemAlloc hc) fun ptr s₁ _ h₁ ↦ ?_
  rcases h₁ with ⟨hnull, h₁⟩ | ⟨hptr, h₁⟩
  · rw [if_pos hnull]
    exact Contract.wp_done fun s₂ hr₂ _ ↦ ⟨rfl, h₁.rely hr₂⟩
  · rw [if_neg hptr]
    refine Contract.wp_seq (wp_fetchAdd Busy.rely _ _ h₁) fun _ s₂ _ h₂ ↦ ?_
    refine Contract.wp_seq (wp_fetchAdd Busy.rely _ _ h₂) fun _ s₃ _ h₃ ↦ ?_
    refine Contract.wp_seq (wp_classifyObjBySize Busy.rely _ h₃) fun _ s₄ _ h₄ ↦ ?_
    exact Contract.wp_map (wp_insertObj h₄)

/-- The lookup, whatever it finds. -/
theorem wp_findHeapObj (hc : Clear t s) :
    contract.wp t ((findHeapObj t ptr).run false) (fun r s ↦ r.2 = false ∧ Clear t s) s := by
  have hrun : (findHeapObj t ptr).run false = (fun obj ↦ (obj, false)) <$> lookupObj t ptr := rfl
  rw [hrun]
  exact Contract.wp_map (Contract.wp_load fun s₁ hr₁ _ s₂ hr₂ _ ↦ ⟨rfl, (hc.rely hr₁).rely hr₂⟩)

theorem wp_accessHeapObj (hc : Clear t s) :
    contract.wp t ((accessHeapObj t ptr).run false) (fun r s ↦ r.2 = false ∧ Clear t s) s := by
  rw [accessHeapObj, ThreadM.run_bind]
  refine Contract.wp_seq (wp_findHeapObj hc) fun r s₁ _ h₁ ↦ ?_
  obtain ⟨obj, flag⟩ := r
  obtain ⟨rfl, hc₁⟩ := h₁
  cases obj with
  | none => exact Contract.wp_done fun s₂ hr₂ _ ↦ ⟨rfl, hc₁.rely hr₂⟩
  | some obj =>
    have hrun : StateT.run (if (some obj, false).1.isSome = true
        then liftM (fetchAdd t .totalMemInsts 1) else pure () : ThreadM Bool (Shared τ) Unit) false
        = (fun _ ↦ ((), false)) <$> fetchAdd t .totalMemInsts 1 := rfl
    rw [hrun]
    exact Contract.wp_map (Contract.wp_mono (fun _ _ _ h ↦ ⟨rfl, h⟩) (wp_fetchAdd Clear.rely _ _ hc₁))

theorem accessUnsafeHeapObj_run (isLoad : Bool) :
    (accessUnsafeHeapObj t ptr isLoad).run false = (do
      let obj ← lookupObj t ptr
      match obj with
      | none => return ((), false)
      | some (base, size) =>
        let fresh ← unsafeInsert t base
        if fresh then
          countUnsafeMem t base size
          fetchAdd t .totalUnsafeObjs 1
          classifyObjBySize t size true
          (fun _ ↦ ((), false)) <$> fetchAdd t (if isLoad then .unsafeLoad else .unsafeStore) 1
        else
          (fun _ ↦ ((), false)) <$> fetchAdd t (if isLoad then .unsafeLoad else .unsafeStore) 1) := by
  have hfind : (findHeapObj t ptr).run false
      = lookupObj t ptr >>= fun obj ↦ .done (obj, false) := rfl
  rw [accessUnsafeHeapObj, ThreadM.run_bind, hfind, bind_assoc]
  refine bind_congr fun obj ↦ ?_
  rcases obj with _ | ⟨base, size⟩
  · rfl
  · simp only [Program.done_bind, ThreadM.run_bind, ThreadM.run_get, Bool.false_eq_true, if_false,
      ThreadM.run_set, ThreadM.run_lift, bind_assoc]
    refine bind_congr fun fresh ↦ ?_
    cases fresh <;> cases isLoad <;> rfl

/-- No access changes what is live or recorded. -/
theorem wp_accessUnsafeHeapObj (isLoad : Bool) (hc : Clear t s) :
    contract.wp t ((accessUnsafeHeapObj t ptr isLoad).run false)
      (fun r s ↦ r.2 = false ∧ Clear t s) s := by
  have hlast : ∀ s : Shared τ, Clear t s →
      contract.wp t ((fun _ ↦ ((), false)) <$>
          fetchAdd t (if isLoad then .unsafeLoad else .unsafeStore) 1)
        (fun r s ↦ r.2 = false ∧ Clear t s) s := fun s h ↦
    Contract.wp_map (Contract.wp_mono (fun _ _ _ h ↦ ⟨rfl, h⟩) (wp_fetchAdd Clear.rely _ _ h))
  rw [accessUnsafeHeapObj_run]
  refine Contract.wp_seq (wp_quiet Clear.rely (fun _ ↦ ⟨rfl, rfl, rfl, rfl, rfl⟩) hc)
    fun obj s₁ _ h₁ ↦ ?_
  rcases obj with _ | ⟨base, size⟩
  · exact Contract.wp_done fun s₂ hr₂ _ ↦ ⟨rfl, h₁.rely hr₂⟩
  · refine Contract.wp_seq (wp_quiet Clear.rely (fun _ ↦ ⟨rfl, rfl, rfl, rfl, rfl⟩) h₁)
      fun fresh s₂ _ h₂ ↦ ?_
    cases fresh with
    | false => exact hlast s₂ h₂
    | true =>
      refine Contract.wp_seq (wp_countUnsafeMem base h₂) fun _ s₃ _ h₃ ↦ ?_
      refine Contract.wp_seq (wp_fetchAdd Clear.rely _ _ h₃) fun _ s₄ _ h₄ ↦ ?_
      refine Contract.wp_seq (wp_classifyObjBySize Clear.rely _ h₄) fun _ s₅ _ h₅ ↦ ?_
      exact hlast s₅ h₅

variable [DecidableEq τ]

/-- After the removal of an entry one may remove there is none left to remove. -/
theorem Busy.removed {p : ℕ} (hb : Busy t old p size s) (hptr : ptr = p ∨ old = some ptr) :
    Busy t none p size { s with
      tracker := s.tracker.removeLive ptr
      history := s.noteRemoved t ptr } where
  stale := by
    change (s.noteRemoved t ptr).stale t = none
    rw [Shared.noteRemoved_stale, Function.update_self]
  left := nofun
  block := hb.block
  recorded := by
    intro b blk hblk hown hne hmem
    rcases (s.mem_noteRemoved_unrecorded t ptr).mp hmem with h | ⟨rfl, blk', hblk', hown'⟩
    · exact hb.recorded hblk hown hne h
    · rcases hptr with heq | hold
      · exact hne heq
      · exact hb.left hold hblk' hown'

/-- A removal, of the entry of one's own block or of one left behind, whoever has the address
now. -/
theorem wp_removeObj {p : ℕ} (hb : Busy t old p size s)
    (hptr : old = none ∧ ptr = p ∨ old = some ptr) :
    contract.wp t ((removeObj t ptr).run false) (fun r s ↦ r.2 = false ∧ Busy t none p size s ∧
      (ptr = p → s.tracker.liveObjs[p]? = none)) s := by
  have hstable : ∀ {s s' : Shared τ},
      Busy t none p size s ∧ (ptr = p → s.tracker.liveObjs[p]? = none) → Rely t s s' →
        Busy t none p size s' ∧ (ptr = p → s'.tracker.liveObjs[p]? = none) := by
    rintro s s' ⟨hb, hnone⟩ hr
    obtain ⟨blk, hblk, hown, -⟩ := hb.block
    exact ⟨hb.rely hr, fun heq ↦ hr.removed hblk hown (hnone heq)⟩
  have hrun : (removeObj t ptr).run false = (do
      liveRemove t ptr
      (fun _ ↦ ((), false)) <$> trackerStep t (·.removeUnsafe ptr)) := rfl
  rw [hrun]
  refine Contract.wp_seq (Contract.wp_store (R := fun _ s ↦ Busy t none p size s ∧
    (ptr = p → s.tracker.liveObjs[p]? = none)) fun s₁ hr₁ hi₁ ↦ ⟨?_, fun s₂ hr₂ _ ↦ ?_⟩)
    fun _ s₁ _ h₁ ↦ ?_
  · refine honest_liveRemove hi₁ fun {b} hstale ↦ ?_
    rw [hr₁.stale, hb.stale] at hstale
    rcases hptr with ⟨hold, -⟩ | hold
    · exact absurd (hold.symm.trans hstale) (by simp)
    · exact Option.some.inj (hstale.symm.trans hold)
  · refine hstable ⟨(hb.rely hr₁).removed (hptr.imp_left And.right), ?_⟩ hr₂
    rintro rfl
    exact getElem?_erase_nat.trans (if_pos rfl)
  · refine Contract.wp_map (Contract.wp_mono (fun _ _ _ h ↦ ⟨rfl, h⟩) ?_)
    exact wp_quiet hstable (fun _ ↦ ⟨rfl, rfl, rfl, rfl, rfl⟩) h₁

theorem wp_dealloc (layout : Layout) (hc : Clear t s) (hown : Owns t ptr layout.size s) :
    contract.wp t ((Heap.dealloc t ptr layout).run false) (fun r s ↦ r.2 = false ∧ Clear t s) s := by
  have hrun : (Heap.dealloc t ptr layout).run false = (do
      fetchAdd t .totalDealloc 1
      let r ← (removeObj t ptr).run false
      (fun _ ↦ ((), r.2)) <$> systemDealloc t ptr) := by
    simp [Heap.dealloc, map_eq_pure_bind]
  rw [hrun]
  refine Contract.wp_seq (wp_fetchAdd Busy.rely _ _ (hc.busy (owns_iff.mp hown)))
    fun _ s₁ _ h₁ ↦ ?_
  refine Contract.wp_seq (wp_removeObj h₁ (.inl ⟨rfl, rfl⟩)) fun r s₂ _ h₂ ↦ ?_
  obtain ⟨hflag, h₂, hnone⟩ := h₂
  refine Contract.wp_map (Contract.wp_store fun s₃ hr₃ hi₃ ↦ ?_)
  obtain ⟨blk, hblk, hown', -⟩ := h₂.block
  obtain ⟨hhonest, hclear⟩ :=
    honest_systemDealloc hi₃ (h₂.rely hr₃) (hr₃.removed hblk hown' (hnone rfl))
  exact ⟨hhonest, fun s₄ hr₄ _ ↦ ⟨hflag, hclear.rely hr₄⟩⟩

theorem wp_systemRealloc {newSize : ℕ} (hb : Busy t none ptr size s) (hc : Clear t s) :
    contract.wp t (systemRealloc t ptr newSize answer)
      (fun newPtr s ↦ newPtr = 0 ∧ Clear t s ∨
        newPtr ≠ 0 ∧ Busy t (if newPtr = ptr then none else some ptr) newPtr newSize s) s := by
  refine Contract.wp_rmw fun s₁ hr₁ hi₁ ↦ ?_
  have hc₁ := hc.rely hr₁
  obtain ⟨blk, hblk, hown, -⟩ := (hb.rely hr₁).block
  simp only [hblk]
  by_cases h : (s₁.blocks.erase ptr).get? answer = none ∧ (s₁.blocks.erase ptr).Free answer newSize
  · obtain ⟨hhonest, hbusy⟩ := honest_resized hi₁ hc₁ hblk hown h.1 h.2
    rw [dif_pos h]
    exact ⟨hhonest, fun s₂ hr₂ _ ↦ .inr ⟨Nat.pos_iff_ne_zero.mp h.2.1.1, hbusy.rely hr₂⟩⟩
  · rw [dif_neg h]
    exact ⟨⟨hi₁, fun u _ ↦ Rely.refl u s₁⟩, fun s₂ hr₂ _ ↦ .inl ⟨rfl, hc₁.rely hr₂⟩⟩

theorem realloc_run (layout : Layout) {newSize : ℕ} :
    (Heap.realloc t ptr layout newSize answer).run false = (do
      let newPtr ← systemRealloc t ptr newSize answer
      if newPtr = 0 then return (newPtr, false)
      else if newPtr = ptr then
        let r ← (insertObj t newPtr newSize).run false
        (fun _ ↦ (newPtr, r.2)) <$> (if newSize > layout.size
          then fetchAdd t .totalUsage (newSize - layout.size)
          else fetchSub t .totalUsage (layout.size - newSize))
      else
        let r ← (removeObj t ptr).run false
        fetchAdd t .totalRealloc 1
        classifyObjBySize t newSize false
        let r ← (insertObj t newPtr newSize).run r.2
        (fun _ ↦ (newPtr, r.2)) <$> (if newSize > layout.size
          then fetchAdd t .totalUsage (newSize - layout.size)
          else fetchSub t .totalUsage (layout.size - newSize))) := by
  simp only [Heap.realloc, ThreadM.run_bind, ThreadM.run_lift, bind_assoc, Program.done_bind]
  refine bind_congr fun newPtr ↦ ?_
  by_cases hnull : newPtr = 0
  · simp [hnull]
  · by_cases hsame : newPtr = ptr
    · subst hsame
      by_cases hgt : newSize > layout.size <;> simp [hnull, hgt] <;> rfl
    · by_cases hgt : newSize > layout.size <;> simp [hnull, hsame, hgt] <;> rfl

theorem wp_realloc (layout : Layout) {newSize : ℕ} (hc : Clear t s)
    (hown : Owns t ptr layout.size s) :
    contract.wp t ((Heap.realloc t ptr layout newSize answer).run false)
      (fun r s ↦ r.2 = false ∧ Clear t s) s := by
  have hadjust : ∀ (s : Shared τ) (newPtr : ℕ), Clear t s →
      contract.wp t ((fun _ ↦ (newPtr, false)) <$> (if newSize > layout.size
        then fetchAdd t .totalUsage (newSize - layout.size)
        else fetchSub t .totalUsage (layout.size - newSize)))
        (fun r s ↦ r.2 = false ∧ Clear t s) s := fun s newPtr h ↦
    Contract.wp_map (Contract.wp_mono (fun _ _ _ h ↦ ⟨rfl, h⟩) (wp_adjust _ _ h))
  rw [realloc_run]
  refine Contract.wp_seq (wp_systemRealloc (hc.busy (owns_iff.mp hown)) hc) fun newPtr s₁ _ h₁ ↦ ?_
  rcases h₁ with ⟨hnull, h₁⟩ | ⟨hne, h₁⟩
  · rw [if_pos hnull]
    exact Contract.wp_done fun s₂ hr₂ _ ↦ ⟨rfl, h₁.rely hr₂⟩
  · rw [if_neg hne]
    by_cases hsame : newPtr = ptr
    · rw [if_pos hsame] at h₁ ⊢
      refine Contract.wp_seq (wp_insertObj h₁) fun r s₂ _ h₂ ↦ ?_
      obtain ⟨hflag, h₂⟩ := h₂
      rw [hflag]
      exact hadjust s₂ newPtr h₂
    · rw [if_neg hsame] at h₁ ⊢
      refine Contract.wp_seq (wp_removeObj h₁ (.inr rfl)) fun r s₂ _ h₂ ↦ ?_
      obtain ⟨hflag, h₂, -⟩ := h₂
      refine Contract.wp_seq (wp_fetchAdd Busy.rely _ _ h₂) fun _ s₃ _ h₃ ↦ ?_
      refine Contract.wp_seq (wp_classifyObjBySize Busy.rely _ h₃) fun _ s₄ _ h₄ ↦ ?_
      rw [hflag]
      refine Contract.wp_seq (wp_insertObj h₄) fun r s₅ _ h₅ ↦ ?_
      obtain ⟨hflag', h₅⟩ := h₅
      rw [hflag']
      exact hadjust s₅ newPtr h₅

/-- A call that is allowed may run, and leaves the thread between calls. -/
theorem wp_call (call : Call) (hc : Clear t s) (hall : call.Allowed t s) :
    contract.wp t ((call.code t).run false) (fun r s ↦ r.2 = false ∧ Clear t s) s := by
  cases call with
  | alloc layout answer => exact Contract.wp_map (wp_alloc layout hc)
  | allocZeroed layout answer =>
    rw [Call.code, allocZeroed_eq_alloc]
    exact Contract.wp_map (wp_alloc layout hc)
  | dealloc ptr layout => exact wp_dealloc layout hc hall
  | realloc ptr layout newSize answer => exact Contract.wp_map (wp_realloc layout hc hall.1)
  | memAccess ptr => exact wp_accessHeapObj hc
  | unsafeMemAccess ptr isLoad => exact wp_accessUnsafeHeapObj isLoad hc

end Calls

/-! ## Runs -/

section Runs

variable {τ : Type}

/-- Every thread idle, before the first call. -/
def start : Config τ (Shared τ) Bool := .start .new false

/-- A thread between calls. -/
def Settled (t : τ) (skip : Bool) (s : Shared τ) : Prop := skip = false ∧ Clear t s

theorem settled_start (t : τ) : contract.wp t (start.thread t) (Settled t) start.shared := by
  have hclear : Clear t (Shared.new : Shared τ) :=
    ⟨rfl, fun hb ↦ absurd hb (by simp [Shared.new])⟩
  exact Contract.wp_done fun _ hr _ ↦ ⟨rfl, hclear.rely hr⟩

/-- With every thread between calls and no record of another's block removed, the map has exactly
the live blocks. -/
theorem Inv.exact {s : Shared τ} (hi : Inv s) (hclean : s.history.clobbered = [])
    (hclear : ∀ t, Clear t s) : Exact s := by
  intro b
  cases hb : s.blocks.get? b with
  | some blk => exact hi.recorded hclean hb ((hclear blk.owner).recorded hb rfl)
  | none =>
    rcases hi.dead hb with h | ⟨t, ht⟩
    · exact h
    · exact absurd ((hclear t).stale.symm.trans ht) (by simp)

variable [DecidableEq τ]

/-- The tracker as a service: any number of threads allocate, free, resize and access. -/
def system : Service τ Call (Shared τ) Bool where
  code t call skip := Prod.snd <$> (call.code t).run skip
  allowed t call _ s := call.Allowed t s

theorem wp_system (t : τ) (call : Call) (skip : Bool) (s : Shared τ) (_ : contract.inv s)
    (hs : Settled t skip s) (hall : system.allowed t call skip s = true) :
    contract.wp t (system.code t call skip) (Settled t) s := by
  obtain ⟨rfl, hc⟩ := hs
  exact Contract.wp_map (wp_call call hc (of_decide_eq_true hall))

theorem inv_run (ms : List (Move τ Call)) : Inv (system.run start ms).shared :=
  (Contract.run_sound (C := contract) system Settled wp_system start Inv.new settled_start ms).1

theorem settled_run (ms : List (Move τ Call)) {t : τ} {skip : Bool}
    (hidle : (system.run start ms).Idle t skip) : Settled t skip (system.run start ms).shared :=
  Contract.run_idle (C := contract) system Settled wp_system start Inv.new settled_start ms hidle

theorem exact_run (ms : List (Move τ Call))
    (hclean : (system.run start ms).shared.history.clobbered = [])
    (hidle : ∀ t, ∃ skip, (system.run start ms).Idle t skip) : Exact (system.run start ms).shared := by
  refine (inv_run ms).exact hclean fun t ↦ ?_
  obtain ⟨skip, hskip⟩ := hidle t
  exact (settled_run ms hskip).2

/-- In a run in which no removal takes the record of another thread's block, the map of live
objects has exactly the live blocks, with their sizes, whenever no call is in progress. -/
theorem live_objs_exact_of_unclobbered (ms : List (Move τ Call))
    (hclean : (system.run start ms).shared.history.clobbered = [])
    (hidle : ∀ t, ∃ skip, (system.run start ms).Idle t skip) :
    ∀ b : ℕ, (system.run start ms).shared.tracker.liveObjs[b]?
      = ((system.run start ms).shared.blocks.get? b).map Block.size :=
  exact_run ms hclean hidle

/-- One thread moves its block away while another is given the old range and records its own block
there, before and after the old entry is removed. -/
def movingRealloc (late : Bool) : List (Move Bool Call) :=
  let other := Move.alone true (.alloc ⟨50⟩ 4096) 5
  Move.alone false (.alloc ⟨100⟩ 4096) 5 ++ Move.alone false (.realloc 4096 ⟨100⟩ 200 8192) 1 ++
    (if late then List.replicate 6 (.step false) ++ other else
      other ++ List.replicate 6 (.step false))

theorem movingRealloc_idle (late t : Bool) :
    ∃ skip, (system.run start (movingRealloc late)).Idle t skip := by
  have hdone : ∀ late t,
      ((system.run start (movingRealloc late)).thread t).returned.isSome = true := by
    decide +kernel
  obtain ⟨skip, hskip⟩ := Option.isSome_iff_exists.mp (hdone late t)
  exact ⟨skip, Program.returned_eq_some.mp hskip⟩

/-- If the other thread records its block before the removal, the record is lost. -/
theorem live_objs_not_exact :
    ¬∀ ms : List (Move Bool Call), (∀ t, ∃ skip, (system.run start ms).Idle t skip) →
      ∀ b : ℕ, (system.run start ms).shared.tracker.liveObjs[b]?
        = ((system.run start ms).shared.blocks.get? b).map Block.size := by
  intro h
  have hlost : (system.run start (movingRealloc false)).shared.tracker.liveObjs[4096]?
      ≠ ((system.run start (movingRealloc false)).shared.blocks.get? 4096).map Block.size := by
    decide +kernel
  exact hlost (h (movingRealloc false) (movingRealloc_idle false) 4096)

/-- If it records it after the removal, nothing is lost. -/
theorem live_objs_exact_of_unclobbered_late :
    (system.run start (movingRealloc true)).shared.history.clobbered = [] ∧
    ∀ b : ℕ, (system.run start (movingRealloc true)).shared.tracker.liveObjs[b]?
      = ((system.run start (movingRealloc true)).shared.blocks.get? b).map Block.size := by
  have hclean : (system.run start (movingRealloc true)).shared.history.clobbered = [] := by
    decide +kernel
  exact ⟨hclean,
    live_objs_exact_of_unclobbered (movingRealloc true) hclean (movingRealloc_idle true)⟩

end Runs

end UnsafePerf.Heap
