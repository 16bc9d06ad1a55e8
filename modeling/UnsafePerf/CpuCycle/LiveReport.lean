import UnsafePerf.CpuCycle.Advance
import Mathlib.Algebra.BigOperators.Group.Finset.Piecewise

/-!
# The exit report of a program that still runs

`final_cleanup` prints the report when the program exits, and so does any call of
`print_cpu_cycle_stats` before. Other threads may be running: they charge their slots, give them up
and take new ones while `calculate_total_stats` goes from slot to slot and from counter to counter.
The totals are then those of no single moment.

They still lie between two moments (`live_report_bounds`). A total is at most what the threads have
added by the end of the scan, less what resets had overwritten before it began: nothing is counted
twice, although a slot may change its owner under the scan. And it is at least what the slots showed
at the beginning, of those that nobody was given during the scan. Both bounds come from `Advances`: a
counter that is read in the middle is bounded from both sides.

What the report prints are sums of several totals (`CycleFigure`), and the bounds add up.
-/

open Concurrency

namespace UnsafePerf.CpuCycle

/-! ## The system -/

/-- A thread between its calls, and the reports it has written. -/
structure Reporter where
  life : Life
  reports : List Text

/-- What a thread calls. -/
inductive ReportingCall where
  | call (call : Call × Inputs)
  /-- `print_cpu_cycle_stats`, or `final_cleanup`. -/
  | print

/-- The system in which any thread may print the report at any time. -/
def reporting {τ : Type} [DecidableEq τ] : Service τ ReportingCall (Shared τ) Reporter where
  code t
    | .call call, w => do
      let life ← (system (τ := τ)).code t call w.life
      return { w with life := life }
    | .print, w => do
      match ← printCpuCycleStats with
      | some text => return { w with reports := w.reports ++ [text] }
      | none => return w
  allowed _
    | .call call, w, _ => call.1.permitted w.life
    | .print, _, _ => true

/-- The start of the program. -/
def startReporting {τ : Type} : Config τ (Shared τ) Reporter := .start .new ⟨.new, []⟩

/-! ## Printing -/

section Print

variable {τ : Type}

theorem readOnly_addSlots (slots : List ℕ) (totals : Counter → UInt64) :
    (addSlots slots totals : Program (Shared τ) _).ReadOnly := by
  induction slots generalizing totals with
  | nil => trivial
  | cons slot slots ih =>
    refine (Program.readOnly_load _).bind fun state ↦ ?_
    by_cases hused : state = .uninitialized
    · rw [if_pos hused]
      exact ih totals
    · rw [if_neg hused]
      refine (Program.readOnly_load _).bind fun _ ↦ (Program.readOnly_load _).bind fun _ ↦ ?_
      refine (Program.readOnly_load _).bind fun _ ↦ (Program.readOnly_load _).bind fun _ ↦ ?_
      exact (Program.readOnly_load _).bind fun _ ↦ (Program.readOnly_load _).bind fun _ ↦ ih _

theorem readOnly_calculateTotalStats : (calculateTotalStats : Program (Shared τ) _).ReadOnly :=
  (Program.readOnly_load _).bind fun _ ↦ (readOnly_addSlots _ _).bind fun _ ↦ trivial

theorem readOnly_dumpStats : (dumpStats : Program (Shared τ) Text).ReadOnly :=
  readOnly_calculateTotalStats.bind fun _ ↦ trivial

variable [Fintype τ]

/-- The flag is not part of the registry's invariant, nor of what the threads rely on. -/
theorem Inv.of_registry {s s' : Shared τ} (hi : Inv s) (hthreads : s'.threads = s.threads)
    (hnext : s'.nextSlot = s.nextSlot) (hhistory : s'.history = s.history) : Inv s' := by
  obtain ⟨⟨threads, nextSlot, statsWritten⟩, history⟩ := s
  obtain ⟨⟨threads', nextSlot', statsWritten'⟩, history'⟩ := s'
  obtain rfl : threads' = threads := hthreads
  obtain rfl : nextSlot' = nextSlot := hnext
  obtain rfl : history' = history := hhistory
  exact ⟨hi.holds_inj, hi.holds_lt, hi.holds_state, hi.unheld, hi.fresh, hi.next, hi.granted_nodup,
    hi.granted_lt, hi.holds_granted, hi.holds_owner, hi.activated_zero, hi.balanced⟩

omit [Fintype τ] in
theorem Rely.of_registry (t : τ) {s s' : Shared τ} (hthreads : s'.threads = s.threads)
    (hhistory : s'.history = s.history) : Rely t s s' where
  holds := by rw [hhistory]
  overshoot := by rw [hhistory]
  granted _ := by rw [hhistory]
  slot _ _ := by rw [hthreads]
  left _ h := ⟨hhistory ▸ h, by rw [hthreads]⟩

theorem wp_compareExchangeWritten {t : τ} {Q : Bool → Shared τ → Prop} {s : Shared τ}
    (h : ∀ b s', Rely t s s' → Inv s' → Q b s') : contract.wp t compareExchangeWritten Q s := by
  refine Contract.wp_rmw fun s₁ hr₁ hi₁ ↦ ?_
  by_cases hwritten : s₁.statsWritten = false
  · rw [if_pos hwritten]
    set s₂ : Shared τ := { s₁ with statsWritten := true } with hs₂
    have hi₂ : Inv s₂ := hi₁.of_registry rfl rfl rfl
    have hflag : ∀ u, Rely u s₁ s₂ := fun u ↦ .of_registry u rfl rfl
    refine ⟨⟨hi₂, fun u _ ↦ hflag u⟩, fun s₃ hr₃ hi₃ ↦ ?_⟩
    exact h _ s₃ (contract.rely_trans hr₁ (contract.rely_trans (hflag t) hr₃)) hi₃
  · rw [if_neg hwritten]
    exact ⟨⟨hi₁, fun u _ ↦ contract.rely_refl u s₁⟩, fun s₃ hr₃ hi₃ ↦
      h _ s₃ (contract.rely_trans hr₁ hr₃) hi₃⟩

/-- Printing changes nothing but the flag. -/
theorem wp_printCpuCycleStats {t : τ} {Q : Option Text → Shared τ → Prop} {s : Shared τ}
    (h : ∀ text s', Rely t s s' → Inv s' → Q text s') :
    contract.wp t printCpuCycleStats Q s := by
  refine Contract.wp_bind (wp_compareExchangeWritten fun b s₁ hr₁ _ ↦ ?_)
  rcases b with _ | _
  · exact Contract.wp_done fun s₂ hr₂ hi₂ ↦ h _ s₂ (contract.rely_trans hr₁ hr₂) hi₂
  · refine Contract.wp_bind (Contract.wp_readOnly readOnly_dumpStats fun text s₂ hr₂ _ ↦ ?_)
    exact Contract.wp_done fun s₃ hr₃ hi₃ ↦
      h _ s₃ (contract.rely_trans hr₁ (contract.rely_trans hr₂ hr₃)) hi₃

theorem steps_printCpuCycleStats :
    (printCpuCycleStats : Program (Shared τ) _).Steps BothInv Advances := by
  have hflag : (compareExchangeWritten : Program (Shared τ) Bool).Steps BothInv Advances := by
    refine Program.steps_rmw fun s hok ↦ ?_
    by_cases hwritten : s.statsWritten = false
    · rw [if_pos hwritten] at hok ⊢
      exact advances_of_threads hok rfl rfl rfl fun _ h ↦ h
    · rw [if_neg hwritten]
      exact .refl s
  refine hflag.bind fun b ↦ ?_
  rcases b with _ | _
  · exact Program.steps_done _
  · exact (readOnly_dumpStats.steps Advances.refl).bind fun _ ↦ Program.steps_done _

variable [DecidableEq τ]

theorem steps_reporting (t : τ) (call : ReportingCall) (w : Reporter) :
    (reporting.code t call w).Steps BothInv Advances := by
  rcases call with call | _
  · exact (registryKeeps_advances.system call w.life).bind fun _ ↦ Program.steps_done _
  · refine steps_printCpuCycleStats.bind fun text ↦ ?_
    rcases text with _ | text <;> exact Program.steps_done _

theorem wp_reporting {t : τ} (call : ReportingCall) {w : Reporter} {s : Shared τ} (hi : Inv s)
    (hsettled : Settled t w.life s) (hallowed : reporting.allowed t call w s = true) :
    contract.wp t (reporting.code t call w) (fun w' ↦ Settled t w'.life) s := by
  rcases call with call | _
  · exact Contract.wp_seq (wp_call call hi hsettled hallowed) fun life s₁ _ h₁ ↦
      Contract.wp_done fun s₂ hr₂ _ ↦ h₁.rely hr₂
  · refine Contract.wp_bind (wp_printCpuCycleStats fun text s₁ hr₁ _ ↦ ?_)
    rcases text with _ | text <;>
      exact Contract.wp_done fun s₂ hr₂ _ ↦ (hsettled.rely hr₁).rely hr₂

/-- The invariant holds in every run. -/
theorem inv_reporting (ms : List (Move τ ReportingCall)) :
    Inv (reporting.run startReporting ms).shared :=
  (Contract.run_sound (C := contract) reporting (fun t w ↦ Settled t w.life)
    (fun _ call _ _ hi hsettled hallowed ↦ wp_reporting call hi hsettled hallowed) startReporting
    Inv.new (fun _ ↦ Contract.wp_done fun _ hr _ ↦ settled_new.rely hr) ms).1

/-- The registry goes on from move to move. -/
theorem advances_move (pre : List (Move τ ReportingCall)) (m : Move τ ReportingCall) :
    Advances (reporting.run startReporting pre).shared
      (reporting.run startReporting (pre ++ [m])).shared :=
  reporting.run_steps Advances.refl steps_reporting (fun _ ↦ Program.steps_done _)
    (fun _ _ _ _ ↦ ⟨inv_reporting _, inv_reporting _⟩) (List.prefix_rfl)

end Print

/-! ## The scan -/

section Scan

variable {τ : Type} [Fintype τ] {s s₀ s₁ s' : Shared τ}

/-- The slot is in use, and stays with its owner until the second state. -/
structure Undisturbed (s s' : Shared τ) (k : ℕ) : Prop where
  state : (s.threads k).state ≠ .uninitialized
  granted : ∀ t, (t, k) ∈ s'.history.granted → (t, k) ∈ s.history.granted
  overwritten : ∀ c, s'.overwritten k c = s.overwritten k c

/-- In between, an undisturbed slot is in use, and its counters have not become less. -/
theorem Undisturbed.between {k : ℕ} (h : Undisturbed s s' k) (h₁ : Advances s s₁)
    (h₂ : Advances s₁ s') (hlt : ∀ c, s'.accountedTotal c < 2 ^ 64) :
    (s₁.threads k).state ≠ .uninitialized ∧
      ∀ c, ((s.threads k).counters c).toNat ≤ ((s₁.threads k).counters c).toNat := by
  refine ⟨h₁.state k h.state fun t ht ↦ h.granted t (h₂.granted _ ht), fun c ↦ ?_⟩
  have hadded := h₁.added (fun c ↦ (h₂.accounted c).trans_lt (hlt c)) k c
  have hover := h₂.overwritten k c
  rw [h.overwritten c] at hover
  rw [Shared.added, Shared.added] at hadded
  omega

/-- It was undisturbed in any time between. -/
theorem Undisturbed.during {s₂ : Shared τ} {k : ℕ} (h : Undisturbed s s' k) (h₁ : Advances s s₁)
    (h₁₂ : Advances s₁ s₂) (h₂ : Advances s₂ s') : Undisturbed s₁ s₂ k where
  state := h₁.state k h.state fun t ht ↦ h.granted t (h₂.granted _ (h₁₂.granted _ ht))
  granted t ht := h₁.granted _ (h.granted t (h₂.granted _ ht))
  overwritten c := le_antisymm (((h₂.overwritten k c).trans_eq (h.overwritten c)).trans
    (h₁.overwritten k c)) (h₁₂.overwritten k c)

/-- One slot of the scan: it is passed over, or each of its counters is read at some moment. -/
theorem runs_addSlots_cons {k : ℕ} {slots : List ℕ} {totals r : Counter → UInt64}
    (h : (addSlots (k :: slots) totals).Runs Advances s r s') :
    ∃ s₁ totals', Advances s s₁ ∧ (addSlots slots totals').Runs Advances s₁ r s' ∧
      ((∃ s₂, Advances s s₂ ∧ Advances s₂ s₁ ∧ (s₂.threads k).state = .uninitialized ∧
          totals' = totals) ∨
        ∀ c, ∃ s₂, Advances s s₂ ∧ Advances s₂ s₁ ∧
          totals' c = totals c + (s₂.threads k).counters c) := by
  obtain ⟨state, s₁, hload, hrest⟩ := h.of_bind
  obtain ⟨s₂, h₂, h₂', rfl⟩ := hload.of_load Advances.refl Advances.trans
  have h₁ : Advances s s₁ := h₂.trans h₂'
  by_cases hused : (s₂.threads k).state = .uninitialized
  · rw [if_pos hused] at hrest
    exact ⟨s₁, totals, h₁, hrest, .inl ⟨s₂, h₂, h₂', hused, rfl⟩⟩
  · rw [if_neg hused] at hrest
    -- the six loads, each at a moment of its own
    obtain ⟨_, t₁, l₁, hrest⟩ := hrest.of_bind
    obtain ⟨u₁, a₁, b₁, rfl⟩ := l₁.of_load Advances.refl Advances.trans
    obtain ⟨_, t₂, l₂, hrest⟩ := hrest.of_bind
    obtain ⟨u₂, a₂, b₂, rfl⟩ := l₂.of_load Advances.refl Advances.trans
    obtain ⟨_, t₃, l₃, hrest⟩ := hrest.of_bind
    obtain ⟨u₃, a₃, b₃, rfl⟩ := l₃.of_load Advances.refl Advances.trans
    obtain ⟨_, t₄, l₄, hrest⟩ := hrest.of_bind
    obtain ⟨u₄, a₄, b₄, rfl⟩ := l₄.of_load Advances.refl Advances.trans
    obtain ⟨_, t₅, l₅, hrest⟩ := hrest.of_bind
    obtain ⟨u₅, a₅, b₅, rfl⟩ := l₅.of_load Advances.refl Advances.trans
    obtain ⟨_, t₆, l₆, hrest⟩ := hrest.of_bind
    obtain ⟨u₆, a₆, b₆, rfl⟩ := l₆.of_load Advances.refl Advances.trans
    have c₅ := b₅.trans (a₆.trans b₆)
    have c₄ := b₄.trans (a₅.trans c₅)
    have c₃ := b₃.trans (a₄.trans c₄)
    have c₂ := b₂.trans (a₃.trans c₃)
    have c₁ := b₁.trans (a₂.trans c₂)
    have d₁ := h₁.trans a₁
    have d₂ := (d₁.trans b₁).trans a₂
    have d₃ := (d₂.trans b₂).trans a₃
    have d₄ := (d₃.trans b₃).trans a₄
    have d₅ := (d₄.trans b₄).trans a₅
    have d₆ := (d₅.trans b₅).trans a₆
    refine ⟨t₆, _, d₆.trans b₆, hrest, .inr fun c ↦ ?_⟩
    rcases c with _ | _ | _ | _ | _ | _
    · exact ⟨u₁, d₁, c₁, rfl⟩
    · exact ⟨u₂, d₂, c₂, rfl⟩
    · exact ⟨u₃, d₃, c₃, rfl⟩
    · exact ⟨u₄, d₄, c₄, rfl⟩
    · exact ⟨u₅, d₅, c₅, rfl⟩
    · exact ⟨u₆, d₆, b₆, rfl⟩

/-- What a slot of the set shows. -/
def shownOf (K : Finset ℕ) (s : Shared τ) (c : Counter) (k : ℕ) : ℕ :=
  if k ∈ K then ((s.threads k).counters c).toNat else 0

/-- The invariant of the scan: from slot to slot the totals stay between what the slots showed at the
beginning and what has been added to them in the end. -/
theorem addSlots_bounds {K : Finset ℕ} {slots : List ℕ} {totals r : Counter → UInt64} {c : Counter}
    (hK : ∀ k ∈ K, Undisturbed s₀ s' k) (hlt : ∀ c, s'.accountedTotal c < 2 ^ 64)
    (hstart : Advances s₀ s)
    (hroom : (totals c).toNat + (slots.map fun k ↦ s'.added k c).sum < 2 ^ 64)
    (h : (addSlots slots totals).Runs Advances s r s') :
    (r c).toNat + (slots.map fun k ↦ s₀.overwritten k c).sum
        ≤ (totals c).toNat + (slots.map fun k ↦ s'.added k c).sum ∧
      (totals c).toNat + (slots.map (shownOf K s₀ c)).sum ≤ (r c).toNat := by
  induction slots generalizing totals s with
  | nil =>
    obtain ⟨rfl, -⟩ := h.of_done Advances.refl Advances.trans
    simp
  | cons k slots ih =>
    obtain ⟨s₁, totals', h₁, hrest, hslot⟩ := runs_addSlots_cons h
    have h₁' : Advances s₁ s' :=
      hrest.of_readOnly (readOnly_addSlots _ _) Advances.refl Advances.trans
    have hover := ((hstart.trans h₁).trans h₁').overwritten k c
    rw [List.map_cons, List.sum_cons] at hroom
    simp only [List.map_cons, List.sum_cons]
    rcases hslot with ⟨s₂, h₂, h₂', hunused, rfl⟩ | hread
    · have hshown : shownOf K s₀ c k = 0 := by
        refine if_neg fun hk ↦ ?_
        exact ((hK k hk).between (hstart.trans h₂) (h₂'.trans h₁') hlt).1 hunused
      have hadded : s'.overwritten k c ≤ s'.added k c := Nat.le_add_left ..
      obtain ⟨hupper, hlower⟩ := ih (hstart.trans h₁) (by omega) hrest
      omega
    · obtain ⟨s₂, h₂, h₂', hread⟩ := hread c
      have hadded := (h₂'.trans h₁').added hlt k c
      have hover₂ := (hstart.trans h₂).overwritten k c
      have hshown : shownOf K s₀ c k ≤ ((s₂.threads k).counters c).toNat := by
        rw [shownOf]
        split
        · next hk => exact ((hK k hk).between (hstart.trans h₂) (h₂'.trans h₁') hlt).2 c
        · exact Nat.zero_le _
      have hvalue : ((s₂.threads k).counters c).toNat + s₂.overwritten k c = s₂.added k c := rfl
      have hsum : (totals' c).toNat = (totals c).toNat + ((s₂.threads k).counters c).toNat := by
        rw [hread, UInt64.toNat_add, Nat.mod_eq_of_lt (by omega)]
      obtain ⟨hupper, hlower⟩ := ih (hstart.trans h₁) (by omega) hrest
      omega

/-- What resets have overwritten of the slots from `n` on. -/
def overwrittenFrom (n : ℕ) (s : Shared τ) (c : Counter) : ℕ :=
  (s.history.discarded.map fun e ↦ if e.1 < n then 0 else Shared.discardedOf c e).sum

theorem Advances.overwrittenFrom (h : Advances s s') (n : ℕ) (c : Counter) :
    overwrittenFrom n s c ≤ overwrittenFrom n s' c := by
  obtain ⟨later, hlater⟩ := h.discarded
  rw [CpuCycle.overwrittenFrom, CpuCycle.overwrittenFrom, ← hlater, List.map_append,
    List.sum_append]
  exact Nat.le_add_right ..

theorem Advances.discardedTotal (h : Advances s s') (c : Counter) :
    s.discardedTotal c ≤ s'.discardedTotal c := by
  obtain ⟨later, hlater⟩ := h.discarded
  rw [Shared.discardedTotal, Shared.discardedTotal, ← hlater, List.map_append, List.sum_append]
  exact Nat.le_add_right ..

omit [Fintype τ] in
theorem sum_overwritten (n : ℕ) (s : Shared τ) (c : Counter) :
    ((List.range n).map fun k ↦ s.overwritten k c).sum + overwrittenFrom n s c
      = s.discardedTotal c := by
  rw [overwrittenFrom, Shared.discardedTotal]
  simp only [Shared.overwritten]
  induction s.history.discarded with
  | nil => simp
  | cons e discarded ih =>
    simp only [List.map_cons, List.sum_cons, List.sum_map_add]
    have hone : ((List.range n).map fun k ↦ if e.1 = k then Shared.discardedOf c e else 0).sum
        = if e.1 < n then Shared.discardedOf c e else 0 := by
      have hsum := Finset.sum_ite_eq (Finset.range n) e.1 fun _ ↦ Shared.discardedOf c e
      simp only [Finset.mem_range] at hsum
      exact hsum
    rw [hone]
    split <;> omega

/-- What has been added to the first slots, and overwritten of the others, is in the books. -/
theorem Inv.sum_added_le (hi : Inv s) {n : ℕ} (hn : n ≤ maxThreads) (c : Counter)
    (hlt : s.accountedTotal c < 2 ^ 64) :
    ((List.range n).map fun k ↦ s.added k c).sum + overwrittenFrom n s c ≤ s.accountedTotal c := by
  have hsplit : ((List.range n).map fun k ↦ s.added k c).sum
      = ∑ k ∈ Finset.range n, ((s.threads k).counters c).toNat
        + ((List.range n).map fun k ↦ s.overwritten k c).sum := List.sum_map_add
  have hslots : ∑ k ∈ Finset.range n, ((s.threads k).counters c).toNat ≤ s.slotTotal c :=
    Finset.sum_le_sum_of_subset (Finset.range_subset_range.mpr hn)
  have hover := sum_overwritten n s c
  have hbalanced := hi.balanced c hlt
  omega

/-- The totals of a scan, whatever the other threads do in the meantime. -/
theorem calculateTotalStats_bounds {K : Finset ℕ} {r : UInt64 × (Counter → UInt64)}
    (hi : Inv s) (hK : ∀ k ∈ K, Undisturbed s s' k) (hlt : ∀ c, s'.accountedTotal c < 2 ^ 64)
    (h : calculateTotalStats.Runs Advances s r s') (c : Counter) :
    (r.2 c).toNat + s.discardedTotal c ≤ s'.accountedTotal c ∧
      ∑ k ∈ K, ((s.threads k).counters c).toNat ≤ (r.2 c).toNat := by
  obtain ⟨n, s₁, hload, hrest⟩ := h.of_bind
  obtain ⟨s₂, h₂, h₂', rfl⟩ := hload.of_load Advances.refl Advances.trans
  obtain ⟨totals, s₃, hscan, hdone⟩ := hrest.of_bind
  obtain ⟨rfl, h₃⟩ := hdone.of_done Advances.refl Advances.trans
  have h₁ : Advances s s₁ := h₂.trans h₂'
  have h₁₃ : Advances s₁ s₃ :=
    hscan.of_readOnly (readOnly_addSlots _ _) Advances.refl Advances.trans
  have hlt₃ : ∀ c, s₃.accountedTotal c < 2 ^ 64 := fun c ↦ (h₃.accounted c).trans_lt (hlt c)
  have hi₃ : Inv s₃ := (h₁.trans h₁₃).inv hi
  have hbooks := hi₃.sum_added_le (min_le_right s₂.nextSlot maxThreads) c (hlt₃ c)
  obtain ⟨hupper, hlower⟩ := addSlots_bounds (c := c)
    (fun k hk ↦ (hK k hk).during (.refl s) (h₁.trans h₁₃) h₃) hlt₃ h₁ (by
      rw [UInt64.toNat_zero, zero_add]
      have := hlt₃ c
      omega) hscan
  have hover := sum_overwritten (min s₂.nextSlot maxThreads) s c
  have hfrom := (h₁.trans h₁₃).overwrittenFrom (min s₂.nextSlot maxThreads) c
  have haccounted := h₃.accounted c
  rw [UInt64.toNat_zero, zero_add] at hupper hlower
  refine ⟨(by omega : (totals c).toNat + _ ≤ _), le_trans ?_ hlower⟩
  -- an undisturbed slot is among those that are scanned
  have hsub : K ⊆ Finset.range (min s₂.nextSlot maxThreads) := by
    intro k hk
    have hused := ((hK k hk).between h₂ (h₂'.trans (h₁₃.trans h₃)) hlt).1
    rw [Finset.mem_range]
    by_contra hge
    exact hused (by rw [(h₂.inv hi).fresh k (not_lt.mp hge)]; rfl)
  have hsum : ((List.range (min s₂.nextSlot maxThreads)).map (shownOf K s c)).sum
      = ∑ k ∈ Finset.range (min s₂.nextSlot maxThreads), shownOf K s c k := rfl
  rw [hsum]
  simp only [shownOf]
  rw [Finset.sum_ite_mem, Finset.inter_eq_right.mpr hsub]

end Scan

/-! ## Reports -/

section Reports

variable {τ : Type} [DecidableEq τ] [Fintype τ] {t : τ} {w w' : Reporter} {text : Text}

omit [DecidableEq τ] in
theorem advances_flag (s : Shared τ) : Advances s { s with statsWritten := true } :=
  .of_books (fun hi ↦ hi.of_registry rfl rfl rfl) (fun _ h ↦ h) rfl rfl (fun _ ↦ rfl) fun _ h _ ↦ h

omit [Fintype τ] in
/-- A call that has printed a report has scanned the registry. -/
theorem exists_scan {E : Shared τ → Shared τ → Prop} (hrefl : ∀ s, E s s)
    (htrans : ∀ {s₁ s₂ s₃}, E s₁ s₂ → E s₂ s₃ → E s₁ s₃)
    (hflag : ∀ s, E s { s with statsWritten := true }) {s s' : Shared τ}
    (h : (reporting.code t .print w).Runs E s w' s') (hreport : w'.reports = w.reports ++ [text]) :
    ∃ s₁ s₂ r, E s s₁ ∧ calculateTotalStats.Runs E s₁ r s₂ ∧ E s₂ s' ∧
      text = (CycleReport.ofTotals r.1 r.2).output := by
  obtain ⟨printed, s₁, hprint, hreturn⟩ := h.of_bind
  have hsome : printed = some text := by
    rcases printed with _ | text'
    · obtain ⟨rfl, -⟩ := hreturn.of_done hrefl htrans
      simp at hreport
    · obtain ⟨rfl, -⟩ := hreturn.of_done hrefl htrans
      simpa using hreport
  subst hsome
  obtain ⟨-, hend⟩ := hreturn.of_done hrefl htrans
  obtain ⟨won, s₂, hcas, hdump⟩ := hprint.of_bind
  obtain ⟨s₃, h₃, hdone⟩ := hcas.of_atomic hrefl htrans
  obtain ⟨hwon, h₂⟩ := hdone.of_done hrefl htrans
  have hbegin : E s s₂ := by
    refine htrans h₃ (htrans ?_ h₂)
    by_cases hwritten : s₃.statsWritten = false
    · simp only [if_pos hwritten]
      exact hflag s₃
    · simp only [if_neg hwritten]
      exact hrefl s₃
  rcases won with _ | _
  · obtain ⟨habs, -⟩ := hdump.of_done hrefl htrans
    exact absurd habs (by simp)
  obtain ⟨text', s₄, hdump, hdone⟩ := hdump.of_bind
  obtain ⟨htext, h₄⟩ := hdone.of_done hrefl htrans
  obtain ⟨r, s₅, hscan, hdone⟩ := hdump.of_bind
  obtain ⟨rfl, h₅⟩ := hdone.of_done hrefl htrans
  exact ⟨s₂, s₅, r, hbegin, hscan, htrans h₅ (htrans h₄ hend), Option.some_inj.mp htext⟩

omit [DecidableEq τ] [Fintype τ] in
/-- The cycles of the program are the sum of four of the totals. -/
theorem calculateTotalStats_fst {E : Shared τ → Shared τ → Prop} (hrefl : ∀ s, E s s)
    (htrans : ∀ {s₁ s₂ s₃}, E s₁ s₂ → E s₂ s₃ → E s₁ s₃) {s s' : Shared τ}
    {r : UInt64 × (Counter → UInt64)} (h : calculateTotalStats.Runs E s r s') :
    r.1 = r.2 .normalCycles + r.2 .unsafeCycles + r.2 .externalSafeCycles
      + r.2 .externalUnsafeCycles := by
  obtain ⟨n, s₁, -, hrest⟩ := h.of_bind
  obtain ⟨totals, s₂, -, hdone⟩ := hrest.of_bind
  obtain ⟨rfl, -⟩ := hdone.of_done hrefl htrans
  rfl

/-- The totals of a report that is printed while other threads run. -/
theorem live_totals_bounds (ms₀ ms : List (Move τ ReportingCall))
    (hidle : (reporting.run startReporting ms₀).Idle t w) (hcall : ∀ k, .call t k ∉ ms)
    (hidle' : (reporting.run startReporting (ms₀ ++ .call t .print :: ms)).Idle t w')
    (hreport : w'.reports = w.reports ++ [text]) :
    let s := (reporting.run startReporting ms₀).shared
    let s' := (reporting.run startReporting (ms₀ ++ .call t .print :: ms)).shared
    (∀ c, s'.accountedTotal c < 2 ^ 64) →
      ∃ totalCycles totals, text = (CycleReport.ofTotals totalCycles totals).output ∧
        totalCycles = totals .normalCycles + totals .unsafeCycles + totals .externalSafeCycles
          + totals .externalUnsafeCycles ∧
        ∀ c, (totals c).toNat + s.discardedTotal c ≤ s'.accountedTotal c ∧
          ∀ K : Finset ℕ, (∀ k ∈ K, Undisturbed s s' k) →
            ∑ k ∈ K, ((s.threads k).counters c).toNat ≤ (totals c).toNat := by
  intro s s' hlt
  -- the call, seen from the thread that makes it
  set c := reporting.run startReporting (ms₀ ++ [.call t .print]) with hc
  have hc_eq : c = { reporting.run startReporting ms₀ with
      thread := Function.update (reporting.run startReporting ms₀).thread t
        (reporting.code t .print w) } := by
    rw [hc, Service.run_append_singleton]
    exact reporting.move_call .print hidle rfl
  have hrest : ∀ ms', reporting.run c ms'
      = reporting.run startReporting (ms₀ ++ .call t .print :: ms') := by
    intro ms'
    rw [hc, ← Service.run_append, List.append_assoc, List.singleton_append]
  have hruns : (c.thread t).Runs Advances c.shared w' s' := by
    refine reporting.runs_of_run hcall (fun pre m _ ↦ ?_) ?_
    · have hmove := advances_move (ms₀ ++ .call t .print :: pre) m
      rwa [hrest, hrest, ← List.cons_append, ← List.append_assoc]
    · rw [hrest, hidle']
      exact .done w' _
  have hthread : c.thread t = reporting.code t .print w := by
    rw [hc_eq]
    exact Function.update_self ..
  have hshared : c.shared = s := by rw [hc_eq]
  rw [hthread, hshared] at hruns
  obtain ⟨s₁, s₂, r, h₁, hscan, h₂, htext⟩ :=
    exists_scan Advances.refl Advances.trans advances_flag hruns hreport
  have h₁₂ : Advances s₁ s₂ :=
    hscan.of_readOnly readOnly_calculateTotalStats Advances.refl Advances.trans
  have hlt₂ : ∀ c, s₂.accountedTotal c < 2 ^ 64 := fun c ↦ (h₂.accounted c).trans_lt (hlt c)
  have hi₁ : Inv s₁ := h₁.inv (inv_reporting ms₀)
  have htotal := calculateTotalStats_fst Advances.refl Advances.trans hscan
  refine ⟨r.1, r.2, htext, htotal, fun c ↦ ⟨?_, fun K hK ↦ ?_⟩⟩
  · have hupper := (calculateTotalStats_bounds (K := ∅) hi₁ (by simp) hlt₂ hscan c).1
    have hdiscarded := h₁.discardedTotal c
    have haccounted := h₂.accounted c
    omega
  · have hstay : ∀ k ∈ K, Undisturbed s₁ s₂ k := fun k hk ↦ (hK k hk).during h₁ h₁₂ h₂
    have hlower := (calculateTotalStats_bounds hi₁ hstay hlt₂ hscan c).2
    refine le_trans (Finset.sum_le_sum fun k hk ↦ ?_) hlower
    exact ((hK k hk).between h₁ (h₁₂.trans h₂) hlt).2 c

/-- The figures of the report that are sums over the slots. -/
inductive CycleFigure where
  | total
  | withinUnsafe
  | external
  | internal

/-- The counters a figure is made of. -/
def CycleFigure.counters : CycleFigure → List Counter
  | .total => [.normalCycles, .unsafeCycles, .externalSafeCycles, .externalUnsafeCycles]
  | .withinUnsafe => [.unsafeCycles]
  | .external => [.externalSafeCycles, .externalUnsafeCycles]
  | .internal => [.normalCycles, .unsafeCycles]

/-- The sum of the counters of a figure. -/
def CycleFigure.sum (figure : CycleFigure) (f : Counter → ℕ) : ℕ := (figure.counters.map f).sum

/-- What the report prints for a figure. -/
def CycleReport.figure (r : CycleReport) : CycleFigure → UInt64
  | .total => r.totalCycles
  | .withinUnsafe => r.unsafeCycles
  | .external => r.externalCycles
  | .internal => r.internalCycles

namespace CycleFigure

variable (figure : CycleFigure) {f g : Counter → ℕ}

theorem sum_le_sum (h : ∀ c, f c ≤ g c) : figure.sum f ≤ figure.sum g :=
  List.sum_le_sum fun c _ ↦ h c

theorem sum_add : figure.sum (fun c ↦ f c + g c) = figure.sum f + figure.sum g :=
  List.sum_map_add

theorem sum_comm (K : Finset ℕ) (f : ℕ → Counter → ℕ) :
    ∑ k ∈ K, figure.sum (f k) = figure.sum fun c ↦ ∑ k ∈ K, f k c := by
  rcases figure with _ | _ | _ | _ <;>
    simp [CycleFigure.sum, counters, Finset.sum_add_distrib]

/-- A figure that does not wrap is the sum of its totals. -/
theorem toNat_figure (totals : Counter → UInt64)
    (hlt : figure.sum (fun c ↦ (totals c).toNat) < 2 ^ 64) :
    ((CycleReport.ofTotals (totals .normalCycles + totals .unsafeCycles
        + totals .externalSafeCycles + totals .externalUnsafeCycles) totals).figure figure).toNat
      = figure.sum fun c ↦ (totals c).toNat := by
  rcases figure with _ | _ | _ | _ <;>
    simp only [CycleFigure.sum, counters, List.map_cons, List.map_nil, List.sum_cons, List.sum_nil,
      CycleReport.figure, CycleReport.ofTotals, UInt64.toNat_add] at hlt ⊢ <;>
    omega

end CycleFigure

/-- **A report from a running program.** Let a thread print the report, while the others do what they
like. Every figure in it that does not wrap is at most what the threads have added when the call
returns, less what resets had overwritten when it began; and at least what was shown, when it began,
by any slots in use that nobody has been given since. -/
theorem live_report_bounds (ms₀ ms : List (Move τ ReportingCall))
    (hidle : (reporting.run startReporting ms₀).Idle t w) (hcall : ∀ k, .call t k ∉ ms)
    (hidle' : (reporting.run startReporting (ms₀ ++ .call t .print :: ms)).Idle t w')
    (hreport : w'.reports = w.reports ++ [text]) :
    let s := (reporting.run startReporting ms₀).shared
    let s' := (reporting.run startReporting (ms₀ ++ .call t .print :: ms)).shared
    (∀ c, s'.accountedTotal c < 2 ^ 64) →
      ∃ r : CycleReport, text = r.output ∧
        ∀ figure : CycleFigure, figure.sum s'.accountedTotal < 2 ^ 64 →
          (r.figure figure).toNat + figure.sum s.discardedTotal ≤ figure.sum s'.accountedTotal ∧
          ∀ K : Finset ℕ, (∀ k ∈ K, Undisturbed s s' k) →
            ∑ k ∈ K, figure.sum (fun c ↦ ((s.threads k).counters c).toNat)
              ≤ (r.figure figure).toNat := by
  intro s s' hlt
  obtain ⟨totalCycles, totals, htext, htotal, hbounds⟩ :=
    live_totals_bounds ms₀ ms hidle hcall hidle' hreport hlt
  refine ⟨_, htext, fun figure hfigure ↦ ?_⟩
  have hupper : figure.sum (fun c ↦ (totals c).toNat) + figure.sum s.discardedTotal
      ≤ figure.sum s'.accountedTotal := by
    rw [← figure.sum_add]
    exact figure.sum_le_sum fun c ↦ (hbounds c).1
  have hvalue := figure.toNat_figure totals (by omega)
  rw [← htotal] at hvalue
  rw [hvalue]
  refine ⟨hupper, fun K hK ↦ ?_⟩
  rw [figure.sum_comm]
  exact figure.sum_le_sum fun c ↦ (hbounds c).2 K hK

/-- The main thread enters an unsafe block. -/
def oneInside : List (Move Bool ReportingCall) :=
  Move.alone false (.call (.init, ⟨1, 10, 10, 10⟩)) 20 ++
  Move.alone false (.call (.hook .startMeasurement, ⟨1, 10, 20, 21⟩)) 20

/-- It leaves the block under the scan of the other thread. -/
def leavesUnderScan : List (Move Bool ReportingCall) :=
  [.step true, .step true, .step true, .step true] ++
  Move.alone false (.call (.hook .endMeasurement, ⟨1, 10, 40, 40⟩)) 20 ++
  List.replicate 20 (.step true)

theorem live_report_bounds_leavesUnderScan :
    let s := (reporting.run startReporting oneInside).shared
    let s' := (reporting.run startReporting
      (oneInside ++ .call true .print :: leavesUnderScan)).shared
    ∃ r : CycleReport, ∀ figure : CycleFigure,
      (r.figure figure).toNat ≤ figure.sum s'.accountedTotal ∧
        figure.sum (fun c ↦ ((s.threads 0).counters c).toNat) ≤ (r.figure figure).toNat := by
  intro s s'
  have hdone : ((reporting.run startReporting oneInside).thread true).returned.any
      (fun w ↦ w.reports.length = 0) := by decide +kernel
  have hdone' : ((reporting.run startReporting
      (oneInside ++ .call true .print :: leavesUnderScan)).thread true).returned.any
      (fun w ↦ w.reports.length = 1) := by decide +kernel
  obtain ⟨w, hw, hlength⟩ := (Option.any_eq_true _ _).mp hdone
  obtain ⟨w', hw', hlength'⟩ := (Option.any_eq_true _ _).mp hdone'
  have hempty : w.reports = [] := List.length_eq_zero_iff.mp (of_decide_eq_true hlength)
  obtain ⟨text, htext⟩ := List.length_eq_one_iff.mp (of_decide_eq_true hlength')
  have hslot : Undisturbed s s' 0 := by
    refine ⟨by decide +kernel, by decide +kernel, fun c ↦ ?_⟩
    rcases c with _ | _ | _ | _ | _ | _ <;> decide +kernel
  have hlt : ∀ c, s'.accountedTotal c < 2 ^ 64 := by
    intro c
    rcases c with _ | _ | _ | _ | _ | _ <;> decide +kernel
  have hreport : w'.reports = w.reports ++ [text] := by rw [htext, hempty, List.nil_append]
  obtain ⟨r, -, hr⟩ := live_report_bounds oneInside leavesUnderScan
    (Program.returned_eq_some.mp hw) (by simp [leavesUnderScan, Move.alone])
    (Program.returned_eq_some.mp hw') hreport hlt
  have hsum : ∀ figure : CycleFigure, figure.sum s'.accountedTotal < 2 ^ 64 := by
    intro figure
    rcases figure with _ | _ | _ | _ <;> decide +kernel
  refine ⟨r, fun figure ↦ ?_⟩
  obtain ⟨hupper, hlower⟩ := hr figure (hsum figure)
  refine ⟨(Nat.le_add_right ..).trans hupper, ?_⟩
  simpa using hlower {0} (by simpa using hslot)

end Reports

end UnsafePerf.CpuCycle
