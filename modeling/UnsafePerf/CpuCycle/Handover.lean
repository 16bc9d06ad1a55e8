import UnsafePerf.CpuCycle.ThreadStart

/-!
# Boxes that change hands

The box of `pthread_create` changes hands without a lock. The creating thread writes it and never
looks at it again; from the moment the system starts a thread, that thread owns it, and it may have
read and freed the box before `pthread_create` returns. What could go wrong is a box that is read or
freed twice, or by a thread that it was not meant for, because its address was given to another one
in the meantime. Nothing of this happens (`routines_handed_over`).

The system may refuse to start a thread. Then nobody frees the box: `boxes_accounted` says which
boxes are on the heap.

## The invariant

Every address is nobody's, or has one owner: the thread that creates, the thread that was created, or
none for good. This map is history, so the invariant can say who may touch a box without a lock that
would say it.
-/

open Concurrency

namespace UnsafePerf.CpuCycle

/-! ## The contract -/

section Contract

variable {τ : Type} {main t : τ} {s s' : Boxes τ}

/-- The invariant of the boxes. -/
structure BoxInv (main : τ) (s : Boxes τ) : Prop where
  /-- A box is there as long as somebody has to free it, or nobody ever will. -/
  live : ∀ p, s.box p = none ↔ s.history.owner p = none
  /-- The box of a thread is the one it was started with, and contains what the call that started
  the thread was given. -/
  child : ∀ p u, s.history.owner p = some (.child u) → s.started u = some p ∧
    ∃ info, s.box p = some info ∧ (u, info) ∈ s.history.created
  /-- A thread that has not read its box owns it. -/
  waiting : ∀ u p, s.started u = some p → u ∉ s.history.entered.map Prod.fst →
    s.history.owner p = some (.child u)
  created_iff : ∀ u, u ∈ s.history.created.map Prod.fst ↔ s.started u ≠ none
  created_nodup : (s.history.created.map Prod.fst).Nodup
  entered_nodup : (s.history.entered.map Prod.fst).Nodup
  entered_created : ∀ e ∈ s.history.entered, e ∈ s.history.created
  refused_iff : ∀ p, p ∈ s.history.refused ↔ s.history.owner p = some .nobody
  refused_nodup : s.history.refused.Nodup
  main_eq : s.started main = none
  faults : s.history.faults = 0

/-- What a thread relies on: its boxes stay, and nobody gives it a new one once it was started. -/
structure BoxRely (t : τ) (s s' : Boxes τ) : Prop where
  started : ∀ p, s.started t = some p → s'.started t = some p
  entered : t ∈ s'.history.entered.map Prod.fst ↔ t ∈ s.history.entered.map Prod.fst
  kept : ∀ p, s.history.owner p = some (.creator t) ∨ s.history.owner p = some (.child t) →
    s'.history.owner p = s.history.owner p ∧ s'.box p = s.box p
  creator : ∀ p, s'.history.owner p = some (.creator t) → s.history.owner p = some (.creator t)
  child : ∀ p, s'.history.owner p = some (.child t) →
    s.history.owner p = some (.child t) ∨ s.started t = none

theorem BoxRely.refl (t : τ) (s : Boxes τ) : BoxRely t s s :=
  ⟨fun _ h ↦ h, Iff.rfl, fun _ _ ↦ ⟨rfl, rfl⟩, fun _ h ↦ h, fun _ h ↦ .inl h⟩

theorem BoxRely.started_none (h : BoxRely t s s') (hnone : s'.started t = none) :
    s.started t = none := by
  rcases hs : s.started t with _ | p
  · rfl
  · rw [h.started p hs] at hnone
    exact absurd hnone (by simp)

theorem BoxRely.trans {s'' : Boxes τ} (h : BoxRely t s s') (h' : BoxRely t s' s'') :
    BoxRely t s s'' where
  started p hp := h'.started p (h.started p hp)
  entered := h'.entered.trans h.entered
  kept p hp := by
    obtain ⟨howner, hbox⟩ := h.kept p hp
    obtain ⟨howner', hbox'⟩ := h'.kept p (by rwa [howner])
    exact ⟨howner'.trans howner, hbox'.trans hbox⟩
  creator p hp := h.creator p (h'.creator p hp)
  child p hp := (h'.child p hp).elim (h.child p) fun hnone ↦ .inr (h.started_none hnone)

/-- The contract of the boxes. -/
def boxContract (main : τ) : Contract τ (Boxes τ) where
  inv := BoxInv main
  rely := BoxRely
  rely_refl := BoxRely.refl
  rely_trans := BoxRely.trans

theorem BoxInv.new (main : τ) : BoxInv main .new where
  live _ := iff_of_true rfl rfl
  child _ _ h := absurd h (by simp [Boxes.new])
  waiting _ _ h := absurd h (by simp [Boxes.new])
  created_iff _ := by simp [Boxes.new]
  created_nodup := List.nodup_nil
  entered_nodup := List.nodup_nil
  entered_created _ h := absurd h List.not_mem_nil
  refused_iff _ := by simp [Boxes.new]
  refused_nodup := List.nodup_nil
  main_eq := rfl
  faults := rfl

/-- What a thread between its operations has to free. -/
def Phase.Owns (main t : τ) (s : Boxes τ) : Phase → Prop
  | .unborn => t ∉ s.history.entered.map Prod.fst
  | .running (some p) | .aborted (some p) =>
    s.started t = some p ∧ s.history.owner p = some (.child t) ∧
      t ∈ s.history.entered.map Prod.fst
  | .running none | .aborted none => t = main
  | .finished => s.started t ≠ none ∧ t ∈ s.history.entered.map Prod.fst ∧
      ∀ p, s.history.owner p ≠ some (.child t)

/-- The thread is between its operations. -/
structure Resting (main t : τ) (phase : Phase) (s : Boxes τ) : Prop where
  owns : phase.Owns main t s
  not_creator : ∀ p, s.history.owner p ≠ some (.creator t)

theorem Phase.Owns.rely {phase : Phase} (h : phase.Owns main t s) (hr : BoxRely t s s') :
    phase.Owns main t s' := by
  rcases phase with _ | (_ | p) | (_ | p) | _
  · exact fun hmem ↦ h (hr.entered.mp hmem)
  · exact h
  · exact ⟨hr.started p h.1, (hr.kept p (.inr h.2.1)).1.trans h.2.1, hr.entered.mpr h.2.2⟩
  · exact h
  · exact ⟨hr.started p h.1, (hr.kept p (.inr h.2.1)).1.trans h.2.1, hr.entered.mpr h.2.2⟩
  · refine ⟨fun hnone ↦ h.1 (hr.started_none hnone), hr.entered.mpr h.2.1, fun p hp ↦ ?_⟩
    exact (hr.child p hp).elim (h.2.2 p) h.1

theorem Resting.rely {phase : Phase} (h : Resting main t phase s) (hr : BoxRely t s s') :
    Resting main t phase s' :=
  ⟨h.owns.rely hr, fun p hp ↦ h.not_creator p (hr.creator p hp)⟩

end Contract

/-! ## The steps -/

section Steps

variable {τ : Type} {main t u : τ} {s s' : Boxes τ} {p : UInt64} {info : ThreadInfo}

/-- A step on a box that is not its own is within what a thread relies on, unless it gives the
thread the box of a creation, or a second one. -/
theorem BoxRely.of_box (hother : ∀ q ≠ p, s'.history.owner q = s.history.owner q ∧ s'.box q = s.box q)
    (hbefore : s.history.owner p ≠ some (.creator u) ∧ s.history.owner p ≠ some (.child u))
    (hcreator : s'.history.owner p ≠ some (.creator u))
    (hchild : s'.history.owner p = some (.child u) → s.started u = none)
    (hstarted : ∀ q, s.started u = some q → s'.started u = some q)
    (hentered : s'.history.entered = s.history.entered) : BoxRely u s s' where
  started := hstarted
  entered := by rw [hentered]
  kept q hq := by
    refine hother q ?_
    rintro rfl
    exact hq.elim hbefore.1 hbefore.2
  creator q hq := by
    by_cases hqp : q = p
    · exact absurd (hqp ▸ hq) hcreator
    · exact (hother q hqp).1.symm.trans hq
  child q hq := by
    by_cases hqp : q = p
    · exact .inr (hchild (hqp ▸ hq))
    · exact .inl ((hother q hqp).1.symm.trans hq)

/-- An address without a box can be given a new one. -/
theorem honest_allocate (hi : BoxInv main s) (hfree : s.box p = none) :
    (boxContract main).Honest t s (s.allocate t p info) := by
  have hnone : s.history.owner p = none := (hi.live p).mp hfree
  have hother : ∀ q ≠ p, (s.allocate t p info).history.owner q = s.history.owner q ∧
      (s.allocate t p info).box q = s.box q :=
    fun q hq ↦ ⟨Function.update_of_ne hq .., Function.update_of_ne hq ..⟩
  have hself : (s.allocate t p info).history.owner p = some (.creator t) := Function.update_self ..
  have hne : ∀ q o, s.history.owner q = some o → q ≠ p := by
    rintro q o hq rfl
    exact absurd (hq.symm.trans hnone) (by simp)
  have hne' : ∀ q o, (s.allocate t p info).history.owner q = some o → o ≠ .creator t → q ≠ p := by
    rintro q o hq ho rfl
    exact ho (Option.some_inj.mp (hq.symm.trans hself))
  refine ⟨{ hi with
    live := fun q ↦ ?_
    child := fun q u hq ↦ ?_
    waiting := fun u q hq hu ↦ ?_
    refused_iff := fun q ↦ ⟨fun hq ↦ ?_, fun hq ↦ ?_⟩ }, fun u hu ↦ ?_⟩
  · by_cases hq : q = p
    · subst hq
      exact iff_of_false (by simp [Boxes.allocate]) (by simp [hself])
    · rw [(hother q hq).1, (hother q hq).2]
      exact hi.live q
  · have hqp := hne' q _ hq (by simp)
    rw [(hother q hqp).1] at hq
    rw [(hother q hqp).2]
    exact hi.child q u hq
  · have howner := hi.waiting u q hq hu
    rwa [(hother q (hne q _ howner)).1]
  · have howner := (hi.refused_iff q).mp hq
    rwa [(hother q (hne q _ howner)).1]
  · have hqp := hne' q _ hq (by simp)
    rw [(hother q hqp).1] at hq
    exact (hi.refused_iff q).mpr hq
  · refine .of_box hother (by simp [hnone]) ?_ (by simp [hself]) (fun _ h ↦ h) rfl
    simpa [hself] using hu.symm

/-- The creating thread hands its box to the new thread. -/
theorem honest_start [DecidableEq τ] {child : τ} (hi : BoxInv main s)
    (howner : s.history.owner p = some (.creator t)) (hbox : s.box p = some info)
    (hnew : s.started child = none) (hmain : child ≠ main) :
    (boxContract main).Honest t s (s.start child p info) := by
  have hother : ∀ q ≠ p, (s.start child p info).history.owner q = s.history.owner q ∧
      (s.start child p info).box q = s.box q :=
    fun q hq ↦ ⟨Function.update_of_ne hq .., rfl⟩
  have hself : (s.start child p info).history.owner p = some (.child child) :=
    Function.update_self ..
  have hstarted : ∀ u q, s.started u = some q → (s.start child p info).started u = some q := by
    intro u q hq
    have hu : u ≠ child := by
      rintro rfl
      exact absurd (hq.symm.trans hnew) (by simp)
    exact (Function.update_of_ne hu ..).trans hq
  have hfresh : child ∉ s.history.created.map Prod.fst :=
    fun hmem ↦ (hi.created_iff child).mp hmem hnew
  have hcreated : (s.start child p info).history.created.map Prod.fst
      = s.history.created.map Prod.fst ++ [child] := by simp [Boxes.start]
  refine ⟨{ hi with
    live := fun q ↦ ?_
    child := fun q u hq ↦ ?_
    waiting := fun u q hq hu ↦ ?_
    created_iff := fun u ↦ ?_
    created_nodup := ?_
    entered_created := fun e he ↦ List.mem_append_left _ (hi.entered_created e he)
    refused_iff := fun q ↦ ?_
    main_eq := (Function.update_of_ne hmain.symm ..).trans hi.main_eq }, fun u hu ↦ ?_⟩
  · by_cases hq : q = p
    · subst hq
      exact iff_of_false (by simp [Boxes.start, hbox]) (by simp [hself])
    · rw [(hother q hq).1, (hother q hq).2]
      exact hi.live q
  · by_cases hqp : q = p
    · subst hqp
      rw [hself, Option.some_inj, Owner.child.injEq] at hq
      subst hq
      exact ⟨Function.update_self .., info, hbox, List.mem_append_right _ (List.mem_singleton_self _)⟩
    · rw [(hother q hqp).1] at hq
      obtain ⟨hu, info', hbox', hmem⟩ := hi.child q u hq
      exact ⟨hstarted u q hu, info', hbox', List.mem_append_left _ hmem⟩
  · by_cases huc : u = child
    · subst huc
      have hpq : Function.update s.started u (some p) u = some q := hq
      rw [Function.update_self, Option.some_inj] at hpq
      exact hpq ▸ hself
    · have hwait := hi.waiting u q ((Function.update_of_ne huc ..).symm.trans hq) hu
      have hqp : q ≠ p := by
        rintro rfl
        rw [howner] at hwait
        exact absurd hwait (by simp)
      rwa [(hother q hqp).1]
  · rw [hcreated, List.mem_append, List.mem_singleton, hi.created_iff]
    by_cases huc : u = child
    · simp [Boxes.start, huc]
    · simp [Boxes.start, huc]
  · rw [hcreated]
    exact List.nodup_append_comm.mp (List.nodup_cons.mpr ⟨hfresh, hi.created_nodup⟩)
  · by_cases hq : q = p
    · subst hq
      rw [hself]
      exact (hi.refused_iff q).trans (by simp [howner])
    · rw [(hother q hq).1]
      exact hi.refused_iff q
  · refine .of_box hother ?_ (by simp [hself]) ?_ (hstarted u) rfl
    · simpa [howner] using hu.symm
    · rw [hself, Option.some_inj, Owner.child.injEq]
      rintro rfl
      exact hnew

/-- The system has refused, and the creating thread leaves its box behind. -/
theorem honest_refuse (hi : BoxInv main s) (howner : s.history.owner p = some (.creator t)) :
    (boxContract main).Honest t s (s.refuse p) := by
  have hother : ∀ q ≠ p, (s.refuse p).history.owner q = s.history.owner q ∧
      (s.refuse p).box q = s.box q :=
    fun q hq ↦ ⟨Function.update_of_ne hq .., rfl⟩
  have hself : (s.refuse p).history.owner p = some .nobody := Function.update_self ..
  have hfresh : p ∉ s.history.refused := by simp [hi.refused_iff, howner]
  refine ⟨{ hi with
    live := fun q ↦ ?_
    child := fun q u hq ↦ ?_
    waiting := fun u q hq hu ↦ ?_
    refused_iff := fun q ↦ ?_
    refused_nodup := List.nodup_append_comm.mp (List.nodup_cons.mpr ⟨hfresh, hi.refused_nodup⟩) },
    fun u hu ↦ ?_⟩
  · by_cases hq : q = p
    · subst hq
      have hbox : s.box q ≠ none := mt (hi.live q).mp (by simp [howner])
      exact iff_of_false hbox (by simp [hself])
    · rw [(hother q hq).1]
      exact hi.live q
  · have hqp : q ≠ p := by
      rintro rfl
      exact absurd (hself.symm.trans hq) (by simp)
    rw [(hother q hqp).1] at hq
    exact hi.child q u hq
  · have hwait := hi.waiting u q hq hu
    have hqp : q ≠ p := by
      rintro rfl
      rw [howner] at hwait
      exact absurd hwait (by simp)
    rwa [(hother q hqp).1]
  · change q ∈ s.history.refused ++ [p] ↔ _
    rw [List.mem_append, List.mem_singleton]
    by_cases hq : q = p
    · subst hq
      exact iff_of_true (.inr rfl) hself
    · rw [(hother q hq).1, hi.refused_iff]
      exact or_iff_left hq
  · refine .of_box hother ?_ (by simp [hself]) (by simp [hself]) (fun _ h ↦ h) rfl
    simpa [howner] using hu.symm

/-- The thread calls the routine that its box contains. -/
theorem honest_enter (hi : BoxInv main s) (howner : s.history.owner p = some (.child t))
    (hbox : s.box p = some info) (hfirst : t ∉ s.history.entered.map Prod.fst) :
    (boxContract main).Honest t s (s.enter t info) := by
  have hentered : (s.enter t info).history.entered.map Prod.fst
      = s.history.entered.map Prod.fst ++ [t] := by simp [Boxes.enter]
  obtain ⟨-, info', hbox', hcreated⟩ := hi.child p t howner
  obtain rfl : info' = info := Option.some_inj.mp (hbox'.symm.trans hbox)
  refine ⟨{ hi with
    waiting := fun u q hq hu ↦ hi.waiting u q hq fun hmem ↦ hu ?_
    entered_nodup := ?_
    entered_created := fun e he ↦ ?_ }, fun u hu ↦ ?_⟩
  · rw [hentered]
    exact List.mem_append_left _ hmem
  · rw [hentered]
    exact List.nodup_append_comm.mp (List.nodup_cons.mpr ⟨hfirst, hi.entered_nodup⟩)
  · rcases List.mem_append.mp he with he | he
    · exact hi.entered_created e he
    · rwa [List.mem_singleton.mp he]
  · refine { BoxRely.refl u s with entered := ?_ }
    rw [hentered, List.mem_append, List.mem_singleton]
    exact or_iff_left hu

/-- The thread frees its box after it has called the routine. -/
theorem honest_free (hi : BoxInv main s) (howner : s.history.owner p = some (.child t))
    (hentered : t ∈ s.history.entered.map Prod.fst) :
    (boxContract main).Honest t s (s.free p) := by
  have hother : ∀ q ≠ p, (s.free p).history.owner q = s.history.owner q ∧
      (s.free p).box q = s.box q :=
    fun q hq ↦ ⟨Function.update_of_ne hq .., Function.update_of_ne hq ..⟩
  have hself : (s.free p).history.owner p = none := Function.update_self ..
  refine ⟨{ hi with
    live := fun q ↦ ?_
    child := fun q u hq ↦ ?_
    waiting := fun u q hq hu ↦ ?_
    refused_iff := fun q ↦ ?_ }, fun u hu ↦ ?_⟩
  · by_cases hq : q = p
    · subst hq
      exact iff_of_true (Function.update_self ..) hself
    · rw [(hother q hq).1, (hother q hq).2]
      exact hi.live q
  · have hqp : q ≠ p := by
      rintro rfl
      exact absurd (hself.symm.trans hq) (by simp)
    rw [(hother q hqp).1] at hq
    rw [(hother q hqp).2]
    exact hi.child q u hq
  · have hwait := hi.waiting u q hq hu
    have hqp : q ≠ p := by
      rintro rfl
      -- the box would belong to a thread that has not read it
      rw [howner, Option.some_inj, Owner.child.injEq] at hwait
      exact hu (hwait ▸ hentered)
    rwa [(hother q hqp).1]
  · by_cases hq : q = p
    · subst hq
      rw [hself]
      exact (hi.refused_iff q).trans (by simp [howner])
    · rw [(hother q hq).1]
      exact hi.refused_iff q
  · refine .of_box hother ?_ (by simp [hself]) (by simp [hself]) (fun _ h ↦ h) rfl
    simpa [howner] using hu.symm

end Steps
/-! ## The operations -/

section Operations

variable {τ : Type} {main t : τ} {s s' : Boxes τ} {p : UInt64} {info : ThreadInfo}
  {box : Option UInt64}

/-- The thread has allocated a box and not yet asked for a new thread. -/
structure Creating (main t : τ) (phase : Phase) (p : UInt64) (info : ThreadInfo) (s : Boxes τ) :
    Prop where
  owns : phase.Owns main t s
  owner : s.history.owner p = some (.creator t)
  box : s.box p = some info
  only : ∀ q, s.history.owner q = some (.creator t) → q = p

theorem Creating.rely {phase : Phase} (h : Creating main t phase p info s) (hr : BoxRely t s s') :
    Creating main t phase p info s' where
  owns := h.owns.rely hr
  owner := (hr.kept p (.inl h.owner)).1.trans h.owner
  box := (hr.kept p (.inl h.owner)).2.trans h.box
  only q hq := h.only q (hr.creator q hq)

theorem Phase.Owns.running_of (h : (Phase.running box).Owns main t s)
    (hstarted : ∀ q, s.started t = some q → s'.started t = some q)
    (howner : ∀ q, s.history.owner q = some (.child t) → s'.history.owner q = some (.child t))
    (hentered : s'.history.entered = s.history.entered) : (Phase.running box).Owns main t s' := by
  rcases box with _ | q
  · exact h
  · exact ⟨hstarted q h.1, howner q h.2.1, hentered ▸ h.2.2⟩

theorem Phase.owns_aborted_iff :
    (Phase.aborted box).Owns main t s ↔ (Phase.running box).Owns main t s := by
  rcases box with _ | q <;> exact Iff.rfl

theorem wp_boxIntoRaw (address : Option UInt64) (hrest : Resting main t (.running box) s) :
    (boxContract main).wp t (boxIntoRaw t address info) (fun r s ↦
      match r with
      | some p => Creating main t (.running box) p info s
      | none => Resting main t (.running box) s) s := by
  refine Contract.wp_rmw fun s₁ hr₁ hi₁ ↦ ?_
  have hrest₁ := hrest.rely hr₁
  have hsame : (boxContract main).Honest t s₁ s₁ := ⟨hi₁, fun u _ ↦ BoxRely.refl u s₁⟩
  rcases address with _ | p
  · exact ⟨hsame, fun s₂ hr₂ _ ↦ hrest₁.rely hr₂⟩
  by_cases hfree : s₁.box p = none
  · simp only [if_pos hfree]
    refine ⟨honest_allocate hi₁ hfree, fun s₂ hr₂ _ ↦ Creating.rely ?_ hr₂⟩
    have hnone : s₁.history.owner p = none := (hi₁.live p).mp hfree
    refine ⟨hrest₁.owns.running_of (fun _ h ↦ h) (fun q hq ↦ ?_) rfl, Function.update_self ..,
      Function.update_self .., fun q hq ↦ ?_⟩
    · have hqp : q ≠ p := by
        rintro rfl
        exact absurd (hq.symm.trans hnone) (by simp)
      exact (Function.update_of_ne hqp ..).trans hq
    · by_contra hqp
      exact hrest₁.not_creator q ((Function.update_of_ne hqp ..).symm.trans hq)
  · simp only [if_neg hfree]
    exact ⟨hsame, fun s₂ hr₂ _ ↦ hrest₁.rely hr₂⟩

theorem wp_realPthreadCreate [DecidableEq τ] (answer : Answer τ)
    (hcreating : Creating main t (.running box) p info s) :
    (boxContract main).wp t (realPthreadCreate main answer info p)
      (fun _ ↦ Resting main t (.running box)) s := by
  refine Contract.wp_rmw fun s₁ hr₁ hi₁ ↦ ?_
  obtain ⟨howns, howner, hbox, honly⟩ := hcreating.rely hr₁
  have hchild : ∀ q, s₁.history.owner q = some (.child t) → q ≠ p := by
    rintro q hq rfl
    exact absurd (hq.symm.trans howner) (by simp)
  have hrefused : (boxContract main).Honest t s₁ (s₁.refuse p) ∧
      Resting main t (.running box) (s₁.refuse p) := by
    refine ⟨honest_refuse hi₁ howner, howns.running_of (fun _ h ↦ h) (fun q hq ↦ ?_) rfl,
      fun q hq ↦ ?_⟩
    · exact (Function.update_of_ne (hchild q hq) ..).trans hq
    · by_cases hqp : q = p
      · subst hqp
        simp [Boxes.refuse] at hq
      · exact hqp (honly q ((Function.update_of_ne hqp ..).symm.trans hq))
  rcases answer with child | code
  · by_cases hnew : s₁.started child = none ∧ child ≠ main
    · simp only [if_pos hnew]
      refine ⟨honest_start hi₁ howner hbox hnew.1 hnew.2, fun s₂ hr₂ _ ↦ Resting.rely ?_ hr₂⟩
      refine ⟨howns.running_of (fun q hq ↦ ?_) (fun q hq ↦ ?_) rfl, fun q hq ↦ ?_⟩
      · have hne : t ≠ child := by
          rintro rfl
          exact absurd (hq.symm.trans hnew.1) (by simp)
        exact (Function.update_of_ne hne ..).trans hq
      · exact (Function.update_of_ne (hchild q hq) ..).trans hq
      · by_cases hqp : q = p
        · subst hqp
          simp [Boxes.start] at hq
        · exact hqp (honly q ((Function.update_of_ne hqp ..).symm.trans hq))
    · simp only [if_neg hnew]
      exact ⟨hrefused.1, fun s₂ hr₂ _ ↦ hrefused.2.rely hr₂⟩
  · exact ⟨hrefused.1, fun s₂ hr₂ _ ↦ hrefused.2.rely hr₂⟩

/-- `pthread_create` leaves its thread with nothing more to free. -/
theorem wp_pthreadCreate [DecidableEq τ] (interposed : Bool) (inp : CreateInputs τ)
    (startRoutine arg : UInt64) (hrest : Resting main t (.running box) s) :
    (boxContract main).wp t (pthreadCreate interposed main t inp startRoutine arg)
      (fun _ ↦ Resting main t (.running box)) s := by
  rcases interposed with _ | _
  · exact Contract.wp_done fun s₁ hr₁ _ ↦ hrest.rely hr₁
  refine Contract.wp_seq (wp_boxIntoRaw inp.address hrest) fun r s₁ _ h₁ ↦ ?_
  rcases r with _ | p
  · exact Contract.wp_done fun s₂ hr₂ _ ↦ h₁.rely hr₂
  · exact Contract.wp_map (wp_realPthreadCreate inp.answer h₁)

/-- A thread that begins reads what the call that started it was given. -/
theorem wp_boxFromRaw (hstarted : s.started t = some p)
    (hfirst : t ∉ s.history.entered.map Prod.fst)
    (hnone : ∀ q, s.history.owner q ≠ some (.creator t)) :
    (boxContract main).wp t (boxFromRaw t p)
      (fun _ ↦ Resting main t (.running (some p))) s := by
  refine Contract.wp_rmw fun s₁ hr₁ hi₁ ↦ ?_
  have hstarted₁ := hr₁.started p hstarted
  have hfirst₁ : t ∉ s₁.history.entered.map Prod.fst := fun h ↦ hfirst (hr₁.entered.mp h)
  have howner := hi₁.waiting t p hstarted₁ hfirst₁
  obtain ⟨-, info, hbox, -⟩ := hi₁.child p t howner
  simp only [hbox]
  refine ⟨honest_enter hi₁ howner hbox hfirst₁, fun s₂ hr₂ _ ↦ Resting.rely ?_ hr₂⟩
  refine ⟨⟨hstarted₁, howner, ?_⟩, fun q hq ↦ hnone q (hr₁.creator q hq)⟩
  simp [Boxes.enter]

/-- The box is there when its thread frees it. -/
theorem wp_dropBox (hrest : Resting main t (.running (some p)) s) :
    (boxContract main).wp t (dropBox t p) (fun _ ↦ Resting main t .finished) s := by
  refine Contract.wp_rmw fun s₁ hr₁ hi₁ ↦ ?_
  obtain ⟨⟨hstarted, howner, hentered⟩, hnone⟩ := hrest.rely hr₁
  have hbox : s₁.box p ≠ none := mt (hi₁.live p).mp (by simp [howner])
  simp only [if_neg hbox]
  refine ⟨honest_free hi₁ howner hentered, fun s₂ hr₂ _ ↦ Resting.rely ?_ hr₂⟩
  have hother : ∀ q o, (s₁.free p).history.owner q = some o → s₁.history.owner q = some o ∧ q ≠ p := by
    intro q o hq
    by_cases hqp : q = p
    · subst hqp
      simp [Boxes.free] at hq
    · exact ⟨(Function.update_of_ne hqp ..).symm.trans hq, hqp⟩
  refine ⟨⟨by simp [Boxes.free, hstarted], hentered, fun q hq ↦ ?_⟩,
    fun q hq ↦ hnone q (hother q _ hq).1⟩
  -- a thread has no box but the one it was started with
  obtain ⟨howner', hqp⟩ := hother q _ hq
  exact hqp (Option.some_inj.mp ((hi₁.child q t howner').1.symm.trans hstarted))

end Operations
/-! ## Runs -/

section Runs

variable {τ : Type} [DecidableEq τ] {main t : τ} {s : World τ} {w : Worker}

/-- A call from the routine leaves the boxes alone. -/
theorem wp_onRegistry (call : Call) (inp : Inputs) (hrest : Resting main t w.phase s.2) :
    (boxContract main).onSecond.wp t
      (call.onRegistry t inp w.life >>= fun life ↦ pure { w with life := life })
      (fun w' s ↦ Resting main t w'.phase s.2) s := by
  refine Contract.wp_bind (Contract.wp_first fun life s₁ hr₁ _ ↦ ?_)
  exact Contract.wp_done fun s₂ hr₂ _ ↦ (hrest.rely hr₁).rely hr₂

theorem wp_begin (inp : Inputs) (interposed : Bool) (hunborn : w.phase = .unborn)
    (hstarted : (s.2.started t).isSome) (hrest : Resting main t w.phase s.2) :
    (boxContract main).onSecond.wp t ((Op.begin inp).code interposed main t w)
      (fun w' s ↦ Resting main t w'.phase s.2) s := by
  rw [hunborn] at hrest
  obtain ⟨p, hp⟩ := Option.isSome_iff_exists.mp hstarted
  have hload : (boxContract main).onSecond.wp t
      (Program.load fun s : Boxes τ ↦ (s.started t).getD 0).second
      (fun arg s ↦ s.2.started t = some arg ∧ Resting main t .unborn s.2) s := by
    refine Contract.wp_second (Contract.wp_load fun s₁ hr₁ _ s₂ hr₂ _ _ ↦ ?_)
    have hp₁ := hr₁.started p hp
    rw [hp₁, Option.getD_some]
    exact ⟨hr₂.started p hp₁, (hrest.rely hr₁).rely hr₂⟩
  refine Contract.wp_seq hload fun arg s₁ _ h₁ ↦ ?_
  simp only [wrapperBegin, ThreadM.run_bind, ThreadM.run_first, ThreadM.run_second, bind_assoc]
  refine Contract.wp_bind (Contract.wp_first fun r s₂ hr₂ _ ↦ ?_)
  obtain ⟨hfirst, hnone⟩ := h₁.2.rely hr₂
  have hread : (boxContract main).onSecond.wp t (boxFromRaw t arg).second
      (fun _ s ↦ Resting main t (.running (some arg)) s.2) s₂ :=
    Contract.wp_second (Contract.wp_mono (fun _ _ _ h _ ↦ h)
      (wp_boxFromRaw (hr₂.started arg h₁.1) hfirst hnone))
  refine Contract.wp_seq hread fun info s₃ _ h₃ ↦ ?_
  exact Contract.wp_done fun s₄ hr₄ _ ↦ Resting.rely h₃ hr₄

theorem wp_create (inp : CreateInputs τ) (interposed : Bool) (startRoutine arg : UInt64)
    (hrunning : w.isRunning = true) (hrest : Resting main t w.phase s.2) :
    (boxContract main).onSecond.wp t ((Op.create startRoutine arg inp).code interposed main t w)
      (fun w' s ↦ Resting main t w'.phase s.2) s := by
  obtain ⟨life, phase⟩ := w
  obtain ⟨box, rfl⟩ := Worker.exists_running hrunning
  have hcreate : (boxContract main).onSecond.wp t
      (pthreadCreate interposed main t inp startRoutine arg).second
      (fun _ s ↦ Resting main t (.running box) s.2) s :=
    Contract.wp_second (Contract.wp_mono (fun _ _ _ h _ ↦ h)
      (wp_pthreadCreate interposed inp startRoutine arg hrest))
  refine Contract.wp_seq hcreate fun code s₁ _ h₁ ↦ ?_
  rcases code with _ | code
  · refine Contract.wp_done fun s₂ hr₂ _ ↦ Resting.rely ⟨?_, h₁.not_creator⟩ hr₂
    exact Phase.owns_aborted_iff.mpr h₁.owns
  · exact Contract.wp_done fun s₂ hr₂ _ ↦ h₁.rely hr₂

theorem wp_finish (inp : Inputs) (interposed : Bool)
    (hall : (Op.finish inp).permitted t w s.2 = true) (hrest : Resting main t w.phase s.2) :
    (boxContract main).onSecond.wp t ((Op.finish inp).code interposed main t w)
      (fun w' s ↦ Resting main t w'.phase s.2) s := by
  obtain ⟨life, phase⟩ := w
  obtain ⟨box, rfl⟩ := Worker.exists_box hall
  simp only [Op.code, wrapperEnd, ThreadM.run_bind, ThreadM.run_first, ThreadM.run_second,
    bind_assoc]
  refine Contract.wp_bind (Contract.wp_first fun r s₁ hr₁ _ ↦ ?_)
  have hdrop : (boxContract main).onSecond.wp t (dropBox t box).second
      (fun _ s ↦ Resting main t .finished s.2) s₁ :=
    Contract.wp_second (Contract.wp_mono (fun _ _ _ h _ ↦ h) (wp_dropBox (hrest.rely hr₁)))
  refine Contract.wp_seq hdrop fun _ s₂ _ h₂ ↦ ?_
  exact Contract.wp_done fun s₃ hr₃ _ ↦ Resting.rely h₂ hr₃

/-- Every operation a thread may perform runs, and leaves the thread resting. -/
theorem wp_op (interposed : Bool) (op : Op τ) (hall : op.permitted t w s.2 = true)
    (hrest : Resting main t w.phase s.2) :
    (boxContract main).onSecond.wp t (op.code interposed main t w)
      (fun w' s ↦ Resting main t w'.phase s.2) s := by
  rcases op with inp | ⟨startRoutine, arg, inp⟩ | inp | ⟨h, inp⟩ | inp
  · have hbegin : w.phase = .unborn ∧ (s.2.started t).isSome := by
      simpa [Op.permitted] using hall
    exact wp_begin inp interposed hbegin.1 hbegin.2 hrest
  · exact wp_create inp interposed startRoutine arg hall hrest
  · exact wp_onRegistry .init inp hrest
  · exact wp_onRegistry (.hook h) inp hrest
  · exact wp_finish inp interposed hall hrest

theorem resting_start (main t : τ) (hr : BoxRely t .new s.2) :
    Resting main t (if t = main then .running none else .unborn) s.2 := by
  refine Resting.rely ⟨?_, fun p ↦ by simp [Boxes.new]⟩ hr
  split
  · next h => exact h
  · exact List.not_mem_nil

/-- The invariant holds in every run. -/
theorem boxInv_run (interposed : Bool) (main : τ) (ms : List (Move τ (Op τ))) :
    BoxInv main ((starting interposed main).run (startingFrom main) ms).shared.2 :=
  (Contract.run_sound (C := (boxContract main).onSecond) (starting interposed main)
    (fun t w s ↦ Resting main t w.phase s.2)
    (fun _ op _ _ _ hrest hall ↦ wp_op interposed op hall hrest) (startingFrom main)
    (BoxInv.new main) (fun t ↦ Contract.wp_done fun _ hr _ ↦ resting_start main t hr) ms).1

/-- Every thread between its operations is resting. -/
theorem resting_run (interposed : Bool) (main : τ) (ms : List (Move τ (Op τ))) {t : τ} {w : Worker}
    (hidle : ((starting interposed main).run (startingFrom main) ms).Idle t w) :
    Resting main t w.phase ((starting interposed main).run (startingFrom main) ms).shared.2 :=
  Contract.run_idle (C := (boxContract main).onSecond) (starting interposed main)
    (fun t w s ↦ Resting main t w.phase s.2)
    (fun _ op _ _ _ hrest hall ↦ wp_op interposed op hall hrest) (startingFrom main)
    (BoxInv.new main) (fun t ↦ Contract.wp_done fun _ hr _ ↦ resting_start main t hr) ms hidle

/-- A thread that was started and has not finished owns its box. -/
theorem owner_of_unfinished {interposed : Bool} {ms : List (Move τ (Op τ))} {p : UInt64}
    (hidle : ((starting interposed main).run (startingFrom main) ms).Idle t w)
    (hphase : w.phase ≠ .finished)
    (hstarted : ((starting interposed main).run (startingFrom main) ms).shared.2.started t = some p) :
    ((starting interposed main).run (startingFrom main) ms).shared.2.history.owner p
      = some (.child t) := by
  have hi := boxInv_run interposed main ms
  have howns := (resting_run interposed main ms hidle).owns
  generalize ((starting interposed main).run (startingFrom main) ms).shared.2 = s at *
  have hmain : t ≠ main := by
    rintro rfl
    exact absurd (hstarted.symm.trans hi.main_eq) (by simp)
  have hbox : ∀ q, s.started t = some q ∧ s.history.owner q = some (.child t) ∧
      t ∈ s.history.entered.map Prod.fst → s.history.owner p = some (.child t) := by
    rintro q ⟨hq, howner, -⟩
    rwa [Option.some_inj.mp (hstarted.symm.trans hq)]
  rcases hw : w.phase with _ | (_ | q) | (_ | q) | _ <;> rw [hw] at howns
  · exact hi.waiting t p hstarted howns
  · exact absurd howns hmain
  · exact hbox q howns
  · exact absurd howns hmain
  · exact hbox q howns
  · exact absurd hw hphase

/-- **Where the boxes are.** When all threads are between operations, the boxes on the heap are
those of the threads that were started and have not finished, each with its own, and those of the
calls that were refused a thread, which nobody frees. -/
theorem boxes_accounted (interposed : Bool) (main : τ) (ms : List (Move τ (Op τ))) :
    let c := (starting interposed main).run (startingFrom main) ms
    let s := c.shared.2
    (∀ t, ∃ w, c.Idle t w) →
      s.history.refused.Nodup ∧
      (∀ t u w w' p, c.Idle t w → c.Idle u w' → w.phase ≠ .finished → w'.phase ≠ .finished →
        s.started t = some p → s.started u = some p → t = u) ∧
      ∀ p, s.box p ≠ none ↔ p ∈ s.history.refused ∨
        ∃ t w, c.Idle t w ∧ w.phase ≠ .finished ∧ s.started t = some p := by
  intro c s hidle
  have hi : BoxInv main s := boxInv_run interposed main ms
  refine ⟨hi.refused_nodup, fun t u w w' p ht hu hw hw' hp hp' ↦ ?_, fun p ↦ ⟨fun hbox ↦ ?_, ?_⟩⟩
  · have howner : s.history.owner p = some (.child t) := owner_of_unfinished ht hw hp
    rw [owner_of_unfinished hu hw' hp', Option.some_inj, Owner.child.injEq] at howner
    exact howner.symm
  · rcases howner : s.history.owner p with _ | t | t | _
    · exact absurd ((hi.live p).mpr howner) hbox
    · obtain ⟨w, hw⟩ := hidle t
      exact absurd howner ((resting_run interposed main ms hw).not_creator p)
    · obtain ⟨w, hw⟩ := hidle t
      refine .inr ⟨t, w, hw, fun hfinished ↦ ?_, (hi.child p t howner).1⟩
      have howns := (resting_run interposed main ms hw).owns
      rw [hfinished] at howns
      exact howns.2.2 p howner
    · exact .inl ((hi.refused_iff p).mpr howner)
  · rintro (hrefused | ⟨t, w, ht, hw, hp⟩) hbox
    · exact absurd ((hi.refused_iff p).mp hrefused) (by simp [(hi.live p).mp hbox])
    · exact absurd (owner_of_unfinished ht hw hp) (by
        change s.history.owner p ≠ _
        simp [(hi.live p).mp hbox])

/-- The main thread starts a thread, which begins, and is refused another one. -/
def oneRefused : List (Move Bool (Op Bool)) :=
  Move.alone false (.create 1 2 ⟨some 100, .started true⟩) 2 ++
  Move.alone true (.begin ⟨1, 10, 10, 10⟩) 20 ++
  Move.alone false (.create 3 4 ⟨some 200, .refused eagain⟩) 2

/-- Both boxes stay, one of them for good. -/
theorem boxes_accounted_oneRefused :
    let s := ((starting true false).run (startingFrom false) oneRefused).shared.2
    s.box 100 ≠ none ∧ s.history.refused = [200] ∧
      (s.box 200 ≠ none ↔ 200 ∈ s.history.refused ∨
        ∃ t w, ((starting true false).run (startingFrom false) oneRefused).Idle t w ∧
          w.phase ≠ .finished ∧ s.started t = some 200) := by
  have hdone : ∀ t, (((starting true false).run (startingFrom false) oneRefused).thread t).returned
      |>.isSome := by decide +kernel
  have hidle : ∀ t, ∃ w, ((starting true false).run (startingFrom false) oneRefused).Idle t w :=
    fun t ↦ (Option.isSome_iff_exists.mp (hdone t)).imp fun _ h ↦ Program.returned_eq_some.mp h
  exact ⟨by decide +kernel, by decide +kernel,
    (boxes_accounted true false oneRefused hidle).2.2 200⟩

end Runs
end UnsafePerf.CpuCycle
