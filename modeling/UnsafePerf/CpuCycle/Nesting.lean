import UnsafePerf.CpuCycle.Conservation

/-!
# Nested unsafe regions

What a bracketed sequence of region hooks is meant to charge: an interval between two hooks counts
as unsafe exactly when some region is open in it. The code keeps no count of open regions, only the
state of the top context, so the close of an inner region also ends the outer one, and the rest of
the outer region is charged as safe code.

`Sim` relates the code to the intended charges with the amount that has gone to the wrong counter.
That amount never shrinks, and it grows at the first hook after an inner region has closed.
-/

open Concurrency

namespace UnsafePerf.CpuCycle

/-! ## The intended charges -/

/-- What the calls so far should have charged. -/
structure Intended where
  /-- The number of open regions. -/
  opened : ℕ
  /-- The reading of the last hook. -/
  last : UInt64
  unsafeCycles : ℕ
  normalCycles : ℕ

namespace Intended

/-- Charge the interval up to a reading. -/
def charge (q : Intended) (tsc : UInt64) : Intended :=
  { q with
    last := tsc
    unsafeCycles := q.unsafeCycles + if 0 < q.opened then tsc.toNat - q.last.toNat else 0
    normalCycles := q.normalCycles + if q.opened = 0 then tsc.toNat - q.last.toNat else 0 }

/-- The intended effect of a call; calls other than region hooks are not considered. -/
def after (q : Intended) : Call × Inputs → Intended
  | (.hook .startMeasurement, inp) => { q.charge inp.tsc with opened := q.opened + 1 }
  | (.hook .endMeasurement, inp) => { q.charge inp.tsc with opened := q.opened - 1 }
  | _ => q

end Intended

/-- The intended charges of the calls of a thread, the first of which initialized it. -/
def intended : List (Call × Inputs) → Intended
  | [] => ⟨0, 0, 0, 0⟩
  | (call, inp) :: calls => ((call, inp) :: calls).foldl .after ⟨0, inp.initTsc, 0, 0⟩

/-- The calls are region hooks that close `n` regions already open and otherwise bracket. Repeated
initialization is harmless. -/
def Bracketed : ℕ → List (Call × Inputs) → Prop
  | n, [] => n = 0
  | n, (.init, _) :: calls => Bracketed n calls
  | n, (.hook .startMeasurement, _) :: calls => Bracketed (n + 1) calls
  | n, (.hook .endMeasurement, _) :: calls => 0 < n ∧ Bracketed (n - 1) calls
  | _, (.hook .callStart, _) :: _ | _, (.hook .callEnd, _) :: _ | _, (.cleanup, _) :: _ => False

instance : ∀ n calls, Decidable (Bracketed n calls)
  | n, [] => inferInstanceAs (Decidable (n = 0))
  | n, (.init, _) :: calls => instDecidableBracketed n calls
  | n, (.hook .startMeasurement, _) :: calls => instDecidableBracketed (n + 1) calls
  | n, (.hook .endMeasurement, _) :: calls =>
    have := instDecidableBracketed (n - 1) calls
    inferInstanceAs (Decidable (0 < n ∧ Bracketed (n - 1) calls))
  | _, (.hook .callStart, _) :: _ | _, (.hook .callEnd, _) :: _ | _, (.cleanup, _) :: _ =>
    inferInstanceAs (Decidable False)

/-- The slot shows the intended charges. -/
def Attributed (st : ThreadStats) (q : Intended) : Prop :=
  (st.counters .unsafeCycles).toNat = q.unsafeCycles ∧
    (st.counters .normalCycles).toNat = q.normalCycles

instance (st : ThreadStats) (q : Intended) : Decidable (Attributed st q) :=
  inferInstanceAs (Decidable (_ ∧ _))

/-! ## The simulation -/

/-- The code and the intended charges, with `missed` cycles of open regions charged as safe. -/
structure Sim (p : ThreadLocals × ThreadStats) (q : Intended) (missed : ℕ) : Prop where
  kept : Kept p (1, q.last)
  /-- The code takes a region to be open only if one is. -/
  state : p.1.currentState = .normal ∨ (p.1.currentState = .unsafeCode ∧ 0 < q.opened)
  normal : (p.2.counters .normalCycles).toNat = q.normalCycles + missed
  unsafeCode : (p.2.counters .unsafeCycles).toNat + missed = q.unsafeCycles

section Steps

variable {l : ThreadLocals} {st : ThreadStats} {q : Intended} {missed : ℕ} {inp : Inputs}

theorem ThreadLocals.currentState_setTop (l : ThreadLocals) (h : 0 < l.stackDepth)
    (f : ContextFrame) : (l.setTop h f).currentState = f.state :=
  (dif_pos h).trans (congrArg ContextFrame.state (l.top_setTop h f))

theorem sim_enter (k : ℕ) (hpos : 0 < inp.initTsc) :
    Sim (ThreadLocals.new.enter k inp.initTsc, .started inp) ⟨0, inp.initTsc, 0, 0⟩ 0 where
  kept := kept_enter k hpos
  state := .inl rfl
  normal := rfl
  unsafeCode := rfl

/-- Where a charge goes. -/
theorem ThreadStats.charge_counters {frame : ContextFrame} {tsc : UInt64}
    (hpos : 0 < frame.startTsc) (hlt : frame.startTsc < tsc)
    (hsum : st.cycles + st.startTsc.toNat = frame.startTsc.toNat) (state : ExecutionState) :
    ((st.charge frame tsc).counters state.counter).toNat
      = (st.counters state.counter).toNat
        + if state = frame.state then tsc.toNat - frame.startTsc.toNat else 0 := by
  have hlt' := UInt64.lt_iff_toNat_lt.mp hlt
  have hsub := UInt64.toNat_sub_of_le tsc frame.startTsc (UInt64.le_of_lt hlt)
  rw [ThreadStats.charge, if_pos ⟨hpos, hlt⟩]
  by_cases hstate : state = frame.state
  · subst hstate
    have hle : (st.counters frame.state.counter).toNat ≤ st.cycles := by
      unfold ThreadStats.cycles
      cases frame.state <;> simp only [ExecutionState.counter] <;> omega
    have hbound := tsc.toNat_lt
    rw [st.add_counters_self, if_pos rfl, UInt64.toNat_add, hsub, Nat.mod_eq_of_lt (by omega)]
  · have hne : state.counter ≠ frame.state.counter := by
      revert hstate
      cases state <;> cases frame.state <;> simp [ExecutionState.counter]
    rw [st.add_counters_of_ne _ hne, if_neg hstate, add_zero]

/-- What the charge of a region hook adds to the missed cycles. -/
def misses (l : ThreadLocals) (q : Intended) (tsc : UInt64) : ℕ :=
  if l.currentState = .normal ∧ 0 < q.opened then tsc.toNat - q.last.toNat else 0

/-- **The charge** of a region hook keeps the two equations, with what it misses. -/
theorem Sim.charge (hs : Sim (l, st) q missed) (hlt : q.last < inp.tsc) :
    ((st.charge (l.top hs.kept.pos) inp.tsc).counters .normalCycles).toNat
        = (q.charge inp.tsc).normalCycles + (missed + misses l q inp.tsc) ∧
      ((st.charge (l.top hs.kept.pos) inp.tsc).counters .unsafeCycles).toNat
        + (missed + misses l q inp.tsc) = (q.charge inp.tsc).unsafeCycles := by
  obtain ⟨⟨_, hpos, htop, hreading, hsum⟩, hstate, hnormal, hunsafe⟩ := hs
  have hframe : 0 < (l.top hpos).startTsc := htop.symm ▸ hreading
  have hframe_lt : (l.top hpos).startTsc < inp.tsc := htop.symm ▸ hlt
  have hcharge := ThreadStats.charge_counters hframe hframe_lt (htop.symm ▸ hsum)
  have hn := hcharge .normal
  have hu := hcharge .unsafeCode
  simp only [ExecutionState.counter] at hn hu
  have hcurrent : l.currentState = (l.top hpos).state := dif_pos hpos
  have htop' : (l.top hpos).startTsc = q.last := htop
  have hnormal' : (st.counters .normalCycles).toNat = q.normalCycles + missed := hnormal
  have hunsafe' : (st.counters .unsafeCycles).toNat + missed = q.unsafeCycles := hunsafe
  rw [hn, hu, htop', ← hcurrent, misses]
  simp only [Intended.charge]
  rcases hstate with h | ⟨h, hopen⟩
  · have h' : l.currentState = .normal := h
    by_cases hopen : 0 < q.opened
    · simp only [h', hopen, and_self, if_true, Nat.ne_of_gt hopen, if_false, reduceCtorEq]
      omega
    · have hzero : q.opened = 0 := Nat.eq_zero_of_not_pos hopen
      simp only [h', hzero, lt_irrefl, and_false, if_true, if_false, reduceCtorEq]
      omega
  · have h' : l.currentState = .unsafeCode := h
    simp only [h', hopen, Nat.ne_of_gt hopen, if_true, if_false, reduceCtorEq, false_and]
    omega

theorem Sim.state_startMeasurement (inp : Inputs) (hs : Sim (l, st) q missed) :
    (Hook.startMeasurement.effect inp (l, st)).1.currentState = .unsafeCode := by
  have hpos : 0 < l.stackDepth := hs.kept.pos
  rw [Hook.effect, dif_pos hpos, l.currentState_setTop]
  rcases hs.state with h | ⟨h, -⟩
  · exact congrArg ExecutionState.enterUnsafe h
  · exact congrArg ExecutionState.enterUnsafe h

/-- The start of a region: the code goes on as intended, but for what it misses. -/
theorem Sim.startMeasurement (hs : Sim (l, st) q missed) (hlt : q.last < inp.tsc) :
    Sim (Hook.startMeasurement.effect inp (l, st)) (q.after (.hook .startMeasurement, inp))
      (missed + misses l q inp.tsc) := by
  have hpos : 0 < l.stackDepth := hs.kept.pos
  have hkept := hs.kept.hook .startMeasurement (UInt64.le_of_lt hlt)
  have hstate := hs.state_startMeasurement inp
  obtain ⟨hn, hu⟩ := hs.charge hlt
  have heffect : Hook.startMeasurement.effect inp (l, st)
      = (l.setTop hpos ⟨l.currentState.enterUnsafe, inp.tsc⟩,
        (st.charge (l.top hpos) inp.tsc).add .unsafeBlocks 1) := by
    rw [Hook.effect, dif_pos hpos]
  rw [heffect] at hkept hstate ⊢
  refine ⟨hkept, .inr ⟨hstate, Nat.succ_pos _⟩, ?_, ?_⟩
  · rw [ThreadStats.add_counters_of_ne _ _ (by simp)]
    exact hn
  · rw [ThreadStats.add_counters_of_ne _ _ (by simp)]
    exact hu

theorem Sim.state_endMeasurement (inp : Inputs) (hs : Sim (l, st) q missed) :
    (Hook.endMeasurement.effect inp (l, st)).1.currentState = .normal := by
  have hpos : 0 < l.stackDepth := hs.kept.pos
  rw [Hook.effect, dif_pos hpos, l.currentState_setTop]
  rcases hs.state with h | ⟨h, -⟩
  · exact congrArg ExecutionState.leaveUnsafe h
  · exact congrArg ExecutionState.leaveUnsafe h

/-- The end of a region: the code takes no region to be open any more. -/
theorem Sim.endMeasurement (hs : Sim (l, st) q missed) (hlt : q.last < inp.tsc) :
    Sim (Hook.endMeasurement.effect inp (l, st)) (q.after (.hook .endMeasurement, inp))
      (missed + misses l q inp.tsc) := by
  have hpos : 0 < l.stackDepth := hs.kept.pos
  have hkept := hs.kept.hook .endMeasurement (UInt64.le_of_lt hlt)
  have hstate := hs.state_endMeasurement inp
  obtain ⟨hn, hu⟩ := hs.charge hlt
  have heffect : Hook.endMeasurement.effect inp (l, st)
      = (l.setTop hpos ⟨l.currentState.leaveUnsafe, inp.tsc⟩,
        st.charge (l.top hpos) inp.tsc) := by
    rw [Hook.effect, dif_pos hpos]
  rw [heffect] at hkept hstate ⊢
  exact ⟨hkept, .inl hstate, hn, hu⟩

end Steps

/-! ## Sequences of calls -/

section Sequences

variable {p : ThreadLocals × ThreadStats} {q : Intended} {missed : ℕ}
  {calls : List (Call × Inputs)}

/-- The calls a bracketed sequence consists of. -/
def Region (e : Call × Inputs) : Prop :=
  e.1 = .init ∨ e.1 = .hook .startMeasurement ∨ e.1 = .hook .endMeasurement

/-- The calls read ever later times. -/
def Later (last : UInt64) (calls : List (Call × Inputs)) : Prop :=
  (last :: calls.flatMap fun e ↦ e.1.readings e.2).Pairwise (· < ·)

theorem Later.head {inp : Inputs} {last : UInt64} {h : Hook}
    (hlater : Later last ((.hook h, inp) :: calls)) : last < inp.tsc :=
  (List.pairwise_cons.mp hlater).1 _ List.mem_cons_self

theorem Later.tail {inp : Inputs} {last : UInt64} {h : Hook}
    (hlater : Later last ((.hook h, inp) :: calls)) : Later inp.tsc calls :=
  (List.pairwise_cons.mp hlater).2

theorem Later.left {last : UInt64} {pre post : List (Call × Inputs)}
    (hlater : Later last (pre ++ post)) : Later last pre := by
  rw [Later, List.flatMap_append] at hlater
  exact hlater.sublist ((List.sublist_append_left _ _).cons_cons _)

/-- The calls after some others read later times than these. -/
theorem Later.rest {pre post : List (Call × Inputs)} (hlater : Later q.last (pre ++ post))
    (hregion : ∀ e ∈ pre, Region e) : Later (pre.foldl .after q).last post := by
  induction pre generalizing q with
  | nil => exact hlater
  | cons e pre ih =>
    obtain ⟨call, inp⟩ := e
    have hrest : ∀ e ∈ pre, Region e := fun e he ↦ hregion e (List.mem_cons_of_mem _ he)
    rcases hregion _ List.mem_cons_self with h | h | h <;> obtain rfl : call = _ := h
    · exact ih hlater hrest
    · exact ih (q := q.after (.hook .startMeasurement, inp)) hlater.tail hrest
    · exact ih (q := q.after (.hook .endMeasurement, inp)) hlater.tail hrest

theorem misses_pos {l : ThreadLocals} {tsc : UInt64} (hlt : q.last < tsc)
    (hstate : l.currentState = .normal) (hopen : 0 < q.opened) : 0 < misses l q tsc := by
  have := UInt64.lt_iff_toNat_lt.mp hlt
  rw [misses, if_pos ⟨hstate, hopen⟩]
  omega

/-- What has been missed stays missed. -/
theorem Sim.regions (hs : Sim p q missed) (hregion : ∀ e ∈ calls, Region e)
    (hlater : Later q.last calls) :
    ∃ missed' ≥ missed,
      Sim (calls.foldl (fun p e ↦ e.1.effect e.2 p) p) (calls.foldl .after q) missed' := by
  induction calls generalizing p q missed with
  | nil => exact ⟨missed, le_rfl, hs⟩
  | cons e calls ih =>
    obtain ⟨call, inp⟩ := e
    have hrest : ∀ e ∈ calls, Region e := fun e he ↦ hregion e (List.mem_cons_of_mem _ he)
    rcases hregion _ List.mem_cons_self with h | h | h <;> obtain rfl : call = _ := h
    · exact ih hs hrest hlater
    · obtain ⟨m, hm, hs'⟩ := ih (hs.startMeasurement hlater.head) hrest hlater.tail
      exact ⟨m, by omega, hs'⟩
    · obtain ⟨m, hm, hs'⟩ := ih (hs.endMeasurement hlater.head) hrest hlater.tail
      exact ⟨m, by omega, hs'⟩

/-- Without nesting nothing is missed. -/
theorem Sim.flat (hs : Sim p q 0) (hstate : p.1.currentState = .normal → q.opened = 0)
    (hregion : ∀ e ∈ calls, Region e) (hlater : Later q.last calls)
    (hflat : ∀ pre, pre <+: calls → (pre.foldl .after q).opened ≤ 1) :
    Sim (calls.foldl (fun p e ↦ e.1.effect e.2 p) p) (calls.foldl .after q) 0 := by
  induction calls generalizing p q with
  | nil => exact hs
  | cons e calls ih =>
    obtain ⟨call, inp⟩ := e
    have hrest : ∀ e ∈ calls, Region e := fun e he ↦ hregion e (List.mem_cons_of_mem _ he)
    have hflat' : ∀ pre, pre <+: calls → (pre.foldl .after (q.after (call, inp))).opened ≤ 1 :=
      fun pre hpre ↦ hflat ((call, inp) :: pre) ((List.prefix_cons_inj _).mpr hpre)
    have hmiss : misses p.1 q inp.tsc = 0 := by
      rw [misses, if_neg]
      rintro ⟨h, hopen⟩
      rw [hstate h] at hopen
      exact lt_irrefl 0 hopen
    have hnow : q.opened ≤ 1 := hflat [] List.nil_prefix
    rcases hregion _ List.mem_cons_self with h | h | h <;> obtain rfl : call = _ := h
    · exact ih hs hstate hrest hlater hflat'
    · have hs' := hs.startMeasurement hlater.head
      rw [hmiss] at hs'
      refine ih hs' (fun h ↦ ?_) hrest hlater.tail hflat'
      exact absurd (h.symm.trans (hs.state_startMeasurement inp)) (by simp)
    · have hs' := hs.endMeasurement hlater.head
      rw [hmiss] at hs'
      refine ih hs' (fun _ ↦ ?_) hrest hlater.tail hflat'
      exact Nat.sub_eq_zero_of_le hnow

theorem Bracketed.region {n : ℕ} (h : Bracketed n calls) : ∀ e ∈ calls, Region e := by
  induction n, calls using Bracketed.induct with
  | case1 => simp
  | case2 n inp calls ih => exact List.forall_mem_cons.mpr ⟨.inl rfl, ih h⟩
  | case3 n inp calls ih => exact List.forall_mem_cons.mpr ⟨.inr (.inl rfl), ih h⟩
  | case4 n inp calls ih => exact List.forall_mem_cons.mpr ⟨.inr (.inr rfl), ih h.2⟩
  | case5 | case6 | case7 => exact h.elim

/-- The rest of a bracketed sequence brackets what is open. -/
theorem Bracketed.rest {pre post : List (Call × Inputs)} (h : Bracketed q.opened (pre ++ post)) :
    Bracketed (pre.foldl .after q).opened post := by
  induction pre generalizing q with
  | nil => exact h
  | cons e pre ih =>
    obtain ⟨call, inp⟩ := e
    rcases h.region _ List.mem_cons_self with hc | hc | hc <;> obtain rfl : call = _ := hc
    · exact ih h
    · exact ih (q := q.after (.hook .startMeasurement, inp)) h
    · exact ih (q := q.after (.hook .endMeasurement, inp)) h.2

/-- Once two regions are open, or one of which the code knows nothing, something will be missed:
the regions have to be closed, and the next hook at the latest charges an open region as safe. -/
theorem Sim.nested (hs : Sim p q missed)
    (hbad : 1 < q.opened ∨ (p.1.currentState = .normal ∧ 0 < q.opened))
    (hbracketed : Bracketed q.opened calls) (hlater : Later q.last calls) :
    ∃ missed' > missed,
      Sim (calls.foldl (fun p e ↦ e.1.effect e.2 p) p) (calls.foldl .after q) missed' := by
  induction calls generalizing p q missed with
  | nil =>
    have : q.opened = 0 := hbracketed
    omega
  | cons e calls ih =>
    obtain ⟨call, inp⟩ := e
    have hregion := hbracketed.region
    have hrest : ∀ e ∈ calls, Region e := fun e he ↦ hregion e (List.mem_cons_of_mem _ he)
    rcases hregion _ List.mem_cons_self with h | h | h <;> obtain rfl : call = _ := h
    · exact ih hs hbad hbracketed hlater
    · have hs' := hs.startMeasurement hlater.head
      rcases hbad with hopen | ⟨hstate, hopen⟩
      · obtain ⟨m, hm, hfinal⟩ := ih hs' (.inl (Nat.lt_succ_of_lt hopen)) hbracketed hlater.tail
        exact ⟨m, by omega, hfinal⟩
      · obtain ⟨m, hm, hfinal⟩ := hs'.regions hrest hlater.tail
        have := misses_pos hlater.head hstate hopen
        exact ⟨m, by omega, hfinal⟩
    · have hs' := hs.endMeasurement hlater.head
      by_cases hstate : p.1.currentState = .normal
      · obtain ⟨m, hm, hfinal⟩ := hs'.regions hrest hlater.tail
        have := misses_pos hlater.head hstate (by omega)
        exact ⟨m, by omega, hfinal⟩
      · have hopen : 1 < q.opened := hbad.resolve_right fun h ↦ hstate h.1
        obtain ⟨m, hm, hfinal⟩ := ih hs'
          (.inr ⟨hs.state_endMeasurement inp, Nat.sub_pos_of_lt hopen⟩) hbracketed.2 hlater.tail
        exact ⟨m, by omega, hfinal⟩

/-- The slot shows the intended charges exactly if nothing was missed. -/
theorem Sim.attributed_iff (hs : Sim p q missed) : Attributed p.2 q ↔ missed = 0 := by
  have hn := hs.normal
  have hu := hs.unsafeCode
  constructor
  · rintro ⟨-, h⟩
    omega
  · rintro rfl
    exact ⟨hu, hn⟩

theorem later_of_readings {e : Call × Inputs} (h : (readings (e :: calls)).Pairwise (· < ·)) :
    Later e.2.initTsc (e :: calls) := by
  simpa [Later, readings] using h

/-- Without nesting the slot shows the intended charges. -/
theorem attributed_of_flat {k : ℕ} (hcalls : calls ≠ []) (hregion : ∀ e ∈ calls, Region e)
    (hpos : ∀ r ∈ readings calls, 0 < r) (hlater : (readings calls).Pairwise (· < ·))
    (hflat : ∀ pre, pre <+: calls → (intended pre).opened ≤ 1) :
    Attributed (outcome k calls).2 (intended calls) := by
  cases calls with
  | nil => exact absurd rfl hcalls
  | cons e calls =>
    have hstart := sim_enter k (hpos e.2.initTsc List.mem_cons_self)
    refine (hstart.flat (fun _ ↦ rfl) hregion (later_of_readings hlater) fun pre hpre ↦ ?_)
      |>.attributed_iff.mpr rfl
    cases pre with
    | nil => exact Nat.zero_le _
    | cons e' pre =>
      obtain rfl : e' = e := (List.cons_prefix_cons.mp hpre).1
      exact hflat _ hpre

/-- With nesting it does not. -/
theorem not_attributed_of_nested {k : ℕ} (hbracketed : Bracketed 0 calls)
    (hpos : ∀ r ∈ readings calls, 0 < r) (hlater : (readings calls).Pairwise (· < ·))
    {pre : List (Call × Inputs)} (hpre : pre <+: calls) (hnested : 1 < (intended pre).opened) :
    ¬Attributed (outcome k calls).2 (intended calls) := by
  cases pre with
  | nil => exact absurd hnested (by simp [intended])
  | cons e pre =>
    obtain ⟨post, rfl⟩ := hpre
    have hstart := sim_enter k (hpos e.2.initTsc List.mem_cons_self)
    set q₀ : Intended := ⟨0, e.2.initTsc, 0, 0⟩
    have hregion : ∀ e' ∈ e :: pre, Region e' :=
      fun e' he ↦ hbracketed.region e' (List.mem_append_left _ he)
    have hlater' : Later q₀.last (e :: pre ++ post) := later_of_readings hlater
    have hrest : Bracketed ((e :: pre).foldl .after q₀).opened post := Bracketed.rest hbracketed
    obtain ⟨m, -, hs⟩ := hstart.regions hregion hlater'.left
    obtain ⟨m', hm', hs'⟩ := hs.nested (.inl hnested) hrest (hlater'.rest hregion)
    rw [← List.foldl_append, ← List.foldl_append] at hs'
    exact fun h ↦ absurd (hs'.attributed_iff.mp h) (by omega)

end Sequences

/-! ## Runs -/

section Runs

variable {τ : Type} [DecidableEq τ] [Fintype τ]

/-- A thread that has only initialized and opened and closed regions finds the outcome of its calls
in its slot. -/
theorem slot_of_regions {ms : List (Move τ (Call × Inputs))} {t : τ} {life : Life} {k : ℕ}
    (hidle : (system.run start ms).Idle t life) (hslot : life.locals.threadSlot = some k)
    (hregion : ∀ e ∈ life.calls, Region e) :
    life.calls ≠ [] ∧ (system.run start ms).shared.threads k = (outcome k life.calls).2 := by
  have hcalls := calls_ne_nil hidle hslot
  refine ⟨hcalls, slot_of_calls List.prefix_rfl hidle hidle hslot hcalls fun e he hcleanup ↦ ?_⟩
  have hregion' := hregion e he
  simp [Region, hcleanup] at hregion'

/-- **Attribution of regions.** Take a thread that has made a bracketed sequence of region calls,
with positive and strictly increasing readings, in any run of the system. Its slot has shown the
intended charges after each of its calls exactly if at no time two of its regions were open. -/
theorem regions_attributed_iff (ms : List (Move τ (Call × Inputs))) {t : τ} {life : Life} {k : ℕ}
    (hidle : (system.run start ms).Idle t life) (hslot : life.locals.threadSlot = some k)
    (hbracketed : Bracketed 0 life.calls) (hpos : ∀ r ∈ readings life.calls, 0 < r)
    (hlater : (readings life.calls).Pairwise (· < ·)) :
    (∀ ms₁, ms₁ <+: ms → ∀ life₁, (system.run start ms₁).Idle t life₁ →
      life₁.locals.threadSlot = some k →
      Attributed ((system.run start ms₁).shared.threads k) (intended life₁.calls)) ↔
    ∀ pre, pre <+: life.calls → (intended pre).opened ≤ 1 := by
  constructor
  · intro hattributed pre hpre
    have h := hattributed ms List.prefix_rfl life hidle hslot
    rw [(slot_of_regions hidle hslot hbracketed.region).2] at h
    by_contra hnested
    exact not_attributed_of_nested hbracketed hpos hlater hpre (not_le.mp hnested) h
  · intro hflat ms₁ hms life₁ hidle₁ hslot₁
    have hwithin := calls_prefix hms hidle₁ hidle
    have hregion : ∀ e ∈ life₁.calls, Region e :=
      fun e he ↦ hbracketed.region e (hwithin.subset he)
    obtain ⟨hcalls, heq⟩ := slot_of_regions hidle₁ hslot₁ hregion
    have hsub := (readings_extend hcalls hwithin).sublist
    rw [heq]
    exact attributed_of_flat hcalls hregion (fun r hr ↦ hpos r (hsub.subset hr))
      (hlater.sublist hsub) fun pre hpre ↦ hflat pre (hpre.trans hwithin)

/-- One thread: a region with another region inside. -/
def nestedRegions : List (Move Unit (Call × Inputs)) :=
  Move.alone () (.init, ⟨1, 10, 10, 10⟩) 20 ++
  Move.alone () (.hook .startMeasurement, ⟨1, 10, 20, 21⟩) 20 ++
  Move.alone () (.hook .startMeasurement, ⟨1, 10, 30, 31⟩) 20 ++
  Move.alone () (.hook .endMeasurement, ⟨1, 10, 40, 40⟩) 20 ++
  Move.alone () (.hook .endMeasurement, ⟨1, 10, 50, 50⟩) 20

theorem nestedRegions_idle :
    ∃ life, (system.run start nestedRegions).Idle () life ∧
      life.locals.threadSlot = some 0 ∧ Bracketed 0 life.calls ∧
      (∀ r ∈ readings life.calls, 0 < r) ∧ (readings life.calls).Pairwise (· < ·) ∧
      ¬Attributed ((system.run start nestedRegions).shared.threads 0) (intended life.calls) := by
  have hdone : ((system.run start nestedRegions).thread ()).returned.any (fun life ↦
      life.locals.threadSlot = some 0 ∧ Bracketed 0 life.calls ∧
      (∀ r ∈ readings life.calls, 0 < r) ∧ (readings life.calls).Pairwise (· < ·) ∧
      ¬Attributed ((system.run start nestedRegions).shared.threads 0) (intended life.calls))
      = true := by decide +kernel
  obtain ⟨life, hlife, hfacts⟩ := (Option.any_eq_true _ _).mp hdone
  exact ⟨life, Program.returned_eq_some.mp hlife, of_decide_eq_true hfacts⟩

/-- The rest of the outer region is charged as safe code. -/
theorem regions_not_attributed :
    ∃ (ms : List (Move Unit (Call × Inputs))) (life : Life),
      (system.run start ms).Idle () life ∧ life.locals.threadSlot = some 0 ∧
      Bracketed 0 life.calls ∧ (∀ r ∈ readings life.calls, 0 < r) ∧
      (readings life.calls).Pairwise (· < ·) ∧
      ¬Attributed ((system.run start ms).shared.threads 0) (intended life.calls) :=
  ⟨nestedRegions, nestedRegions_idle⟩

theorem regions_attributed_iff_nestedRegions :
    ∃ life, (system.run start nestedRegions).Idle () life ∧
      ((∀ ms₁, ms₁ <+: nestedRegions → ∀ life₁, (system.run start ms₁).Idle () life₁ →
        life₁.locals.threadSlot = some 0 →
        Attributed ((system.run start ms₁).shared.threads 0) (intended life₁.calls)) ↔
      ∀ pre, pre <+: life.calls → (intended pre).opened ≤ 1) := by
  obtain ⟨life, hidle, hslot, hbracketed, hpos, hlater, -⟩ := nestedRegions_idle
  exact ⟨life, hidle, regions_attributed_iff nestedRegions hidle hslot hbracketed hpos hlater⟩

end Runs

end UnsafePerf.CpuCycle
