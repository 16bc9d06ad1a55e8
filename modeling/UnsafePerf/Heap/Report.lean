import UnsafePerf.Heap.Events
import UnsafePerf.Heap.Skipping
import UnsafePerf.Text.Decimal
import Mathlib.Algebra.BigOperators.Fin
import Mathlib.Algebra.Order.BigOperators.Group.Finset

/-!
# The heap report

The tracker keeps a histogram of the sizes of new and moved blocks and one of the objects that
unsafe code touches, next to counters of the same events. The bounds of the size classes, and the
identities between histograms, counters and the map of live objects, are statements about the list
of events.

`dump_stats` reads the counters, sets `SKIP_TRACKING` and only then formats the histograms. What the
formatting allocates, between any two of its reads, is not tracked, so the printed figures satisfy
the same identities.
-/

open Concurrency Ranges

namespace UnsafePerf.Heap

/-! ## Size classes -/

/-- The size belongs to the class: class `0` is everything up to 1 KiB, class `13` everything above
4 MiB, and class `i` in between everything above `2 ^ (i - 1)` and up to `2 ^ i` KiB. -/
def InClass (size : ℕ) (i : Fin objSizeNum) : Prop :=
  (i.val ≠ 0 → 2 ^ (i.val - 1) * 2 ^ 10 < size) ∧ (i.val ≠ 13 → size ≤ 2 ^ i.val * 2 ^ 10)

instance (size : ℕ) (i : Fin objSizeNum) : Decidable (InClass size i) :=
  inferInstanceAs (Decidable (_ ∧ _))

theorem inClass_sizeClass (size : ℕ) : InClass size (HeapTracker.sizeClass size) := by
  rw [HeapTracker.sizeClass, ← Fin.find?_eq_find?_finRange]
  split
  · next j hj =>
    obtain ⟨hle, hfirst⟩ := Fin.find?_eq_some_iff.mp hj
    refine ⟨fun hne ↦ ?_, fun _ ↦ by simpa using hle⟩
    have hne' : j.val ≠ 0 := hne
    have hprev := hfirst ⟨j.val - 1, by omega⟩ (Fin.mk_lt_of_lt_val (by omega))
    simpa using hprev
  · next hj =>
    have hlast := Fin.find?_eq_none_iff.mp hj 12
    exact ⟨fun _ ↦ by simpa using hlast, fun hne ↦ absurd rfl hne⟩

theorem not_lt_of_inClass {size : ℕ} {i j : Fin objSizeNum} (hi : InClass size i)
    (hj : InClass size j) : ¬i < j := by
  intro hlt
  have hi13 : i.val ≠ 13 := by
    have := j.isLt
    unfold objSizeNum at this
    omega
  have hpow : 2 ^ i.val ≤ 2 ^ (j.val - 1) := Nat.pow_le_pow_right (by decide) (by omega)
  have hlower := hj.1 (by omega)
  have hupper := hi.2 hi13
  omega

/-- Every size belongs to one class, the one the tracker finds. -/
theorem inClass_iff {size : ℕ} {i : Fin objSizeNum} :
    InClass size i ↔ HeapTracker.sizeClass size = i := by
  refine ⟨fun h ↦ ?_, fun h ↦ h ▸ inClass_sizeClass size⟩
  have hown := inClass_sizeClass size
  exact le_antisymm (not_lt.mp (not_lt_of_inClass h hown)) (not_lt.mp (not_lt_of_inClass hown h))

/-! ## Counting events -/

namespace Event

/-- The size that the histogram records for the event: that of a new or a moved block. -/
def recorded : Event → Option ℕ
  | allocated _ size => some size
  | moved _ _ _ newSize => some newSize
  | _ => none

/-- A block begins or moves, with a size of the class. -/
def recordedIn (i : Fin objSizeNum) (e : Event) : Bool := e.recorded.any fun size ↦ InClass size i

/-- The event is one of those that the counter counts. -/
def counted (c : HeapCounter) : Event → Bool
  | allocated _ _ => c = .totalAlloc
  | freed _ => c = .totalDealloc
  | moved _ _ _ _ => c = .totalRealloc
  | accessed => c = .totalMemInsts
  | unsafeAccessed _ _ isLoad => c = if isLoad then .unsafeLoad else .unsafeStore
  | resized _ _ _ | nothing => false

end Event

/-- Every allocation and every move is recorded in one class. -/
theorem sum_countP_recordedIn (es : List Event) : ∑ i, es.countP (Event.recordedIn i)
    = es.countP (Event.counted .totalAlloc) + es.countP (Event.counted .totalRealloc) := by
  induction es with
  | nil => simp
  | cons e es ih =>
    simp only [List.countP_cons, Finset.sum_add_distrib, ih]
    cases e with
    | allocated base size =>
      simp [Event.recordedIn, Event.recorded, Event.counted, inClass_iff]
      omega
    | moved base newBase oldSize newSize =>
      simp [Event.recordedIn, Event.recorded, Event.counted, inClass_iff]
      omega
    | unsafeAccessed base size isLoad =>
      cases isLoad <;> simp [Event.recordedIn, Event.recorded, Event.counted]
    | freed | resized | accessed | nothing =>
      simp [Event.recordedIn, Event.recorded, Event.counted]

/-- A counter that counts events, unlike those that add up sizes or count objects. -/
def HeapCounter.CountsEvents (c : HeapCounter) : Prop :=
  c ≠ .totalUsage ∧ c ≠ .totalUnsafeObjs ∧ c ≠ .unsafeMem

instance (c : HeapCounter) : Decidable c.CountsEvents := inferInstanceAs (Decidable (_ ∧ _))

namespace HeapTracker

variable (h : HeapTracker)

theorem sizeHistogram_adjust (oldSize newSize : ℕ) :
    (h.adjust oldSize newSize).sizeHistogram = h.sizeHistogram := by
  rw [adjust]
  split
  · rfl
  · rfl

theorem unsafeSizeHistogram_adjust (oldSize newSize : ℕ) :
    (h.adjust oldSize newSize).unsafeSizeHistogram = h.unsafeSizeHistogram := by
  rw [adjust]
  split
  · rfl
  · rfl

theorem sizeHistogram_record (e : Event) :
    (h.record e).sizeHistogram = e.recorded.elim h.sizeHistogram fun size ↦
      Function.update h.sizeHistogram (sizeClass size)
        ((h.sizeHistogram (sizeClass size) + 1) % 2 ^ 64) := by
  cases e with
  | moved base newBase oldSize newSize =>
    rw [record, sizeHistogram_adjust]
    rfl
  | resized base oldSize newSize =>
    rw [record, sizeHistogram_adjust]
    rfl
  | unsafeAccessed base size isLoad =>
    rw [record]
    split
    · rfl
    · rfl
  | allocated | freed | accessed | nothing => rfl

/-- The unsafe histogram records first accesses by unsafe code, and nothing else. -/
theorem unsafeSizeHistogram_record (e : Event) :
    (h.record e).unsafeSizeHistogram = match e with
      | .unsafeAccessed base size _ =>
        if h.liveUnsafeObjs.contains base then h.unsafeSizeHistogram
        else Function.update h.unsafeSizeHistogram (sizeClass size)
          ((h.unsafeSizeHistogram (sizeClass size) + 1) % 2 ^ 64)
      | _ => h.unsafeSizeHistogram := by
  cases e with
  | unsafeAccessed base size isLoad =>
    dsimp only [record]
    split
    · rfl
    · rfl
  | moved base newBase oldSize newSize => exact unsafeSizeHistogram_adjust ..
  | resized base oldSize newSize => exact unsafeSizeHistogram_adjust ..
  | allocated | freed | accessed | nothing => rfl

theorem totalUnsafeObjs_record (e : Event) :
    (h.record e).counters .totalUnsafeObjs = match e with
      | .unsafeAccessed base _ _ =>
        if h.liveUnsafeObjs.contains base then h.counters .totalUnsafeObjs
        else (h.counters .totalUnsafeObjs + 1) % 2 ^ 64
      | _ => h.counters .totalUnsafeObjs := by
  cases e with
  | unsafeAccessed base size isLoad =>
    dsimp only [record]
    split
    · cases isLoad <;> simp
    · cases isLoad <;> simp
  | allocated | freed | moved | resized | accessed | nothing => simp [record]

theorem counters_record {c : HeapCounter} (hc : c.CountsEvents) (e : Event) :
    (h.record e).counters c
      = if e.counted c then (h.counters c + 1) % 2 ^ 64 else h.counters c := by
  obtain ⟨husage, hobjs, hmem⟩ := hc
  cases e with
  | unsafeAccessed base size isLoad =>
    rw [record]
    split
    · cases isLoad <;> simp +contextual [Event.counted, insertUnsafe]
    · cases isLoad <;> simp +contextual [Event.counted, hobjs, hmem]
  | allocated | freed | moved | resized | accessed | nothing =>
    simp +contextual [record, Event.counted, husage]

end HeapTracker

/-- The histograms and counters of a tracker agree with a list of events. -/
structure Tallied (h : HeapTracker) (es : List Event) : Prop where
  sizeHistogram : ∀ i, h.sizeHistogram i = es.countP (Event.recordedIn i) % 2 ^ 64
  counters : ∀ c : HeapCounter, c.CountsEvents →
    h.counters c = es.countP (Event.counted c) % 2 ^ 64
  /-- The objects that unsafe code has touched, by class. -/
  unsafeObjs : ∃ touched : Fin objSizeNum → ℕ,
    (∀ i, h.unsafeSizeHistogram i = touched i % 2 ^ 64) ∧
      h.counters .totalUnsafeObjs = (∑ i, touched i) % 2 ^ 64 ∧ ∑ i, touched i ≤ es.length

namespace Tallied

variable {h : HeapTracker} {es : List Event}

theorem new : Tallied .new [] where
  sizeHistogram _ := rfl
  counters _ _ := rfl
  unsafeObjs := ⟨fun _ ↦ 0, fun _ ↦ rfl, by simp [HeapTracker.new], by simp⟩

theorem record_sizeHistogram (ht : Tallied h es) (e : Event) (i : Fin objSizeNum) :
    (h.record e).sizeHistogram i = (es ++ [e]).countP (Event.recordedIn i) % 2 ^ 64 := by
  rw [HeapTracker.sizeHistogram_record, List.countP_append, List.countP_singleton, Event.recordedIn]
  rcases e.recorded with _ | size
  · exact ht.sizeHistogram i
  · simp only [Option.elim_some, Option.any_some, inClass_iff, Function.update_apply,
      ht.sizeHistogram, decide_eq_true_eq]
    by_cases hi : HeapTracker.sizeClass size = i
    · rw [if_pos hi.symm, if_pos hi, hi, Nat.mod_add_mod]
    · rw [if_neg (Ne.symm hi), if_neg hi, Nat.add_zero]

theorem record_counters (ht : Tallied h es) (e : Event) {c : HeapCounter} (hc : c.CountsEvents) :
    (h.record e).counters c = (es ++ [e]).countP (Event.counted c) % 2 ^ 64 := by
  rw [HeapTracker.counters_record h hc, List.countP_append, List.countP_singleton, ht.counters c hc]
  split
  · rw [Nat.mod_add_mod]
  · rw [Nat.add_zero]

/-- Touching an object for the first time adds one to its class and to the number of objects. -/
theorem record_unsafeObjs (ht : Tallied h es) (e : Event) : ∃ touched : Fin objSizeNum → ℕ,
    (∀ i, (h.record e).unsafeSizeHistogram i = touched i % 2 ^ 64) ∧
      (h.record e).counters .totalUnsafeObjs = (∑ i, touched i) % 2 ^ 64 ∧
      ∑ i, touched i ≤ (es ++ [e]).length := by
  obtain ⟨touched, hhist, hobjs, hle⟩ := ht.unsafeObjs
  rw [List.length_append, List.length_singleton, h.unsafeSizeHistogram_record,
    h.totalUnsafeObjs_record]
  have hsame : ∑ i, touched i ≤ es.length + 1 := Nat.le_succ_of_le hle
  cases e with
  | unsafeAccessed base size isLoad =>
    dsimp only
    by_cases hknown : h.liveUnsafeObjs.contains base = true
    · rw [if_pos hknown, if_pos hknown]
      exact ⟨touched, hhist, hobjs, hsame⟩
    · have hsum : ∑ i, Function.update touched (HeapTracker.sizeClass size)
          (touched (HeapTracker.sizeClass size) + 1) i = ∑ i, touched i + 1 := by
        have hmem := Finset.mem_univ (HeapTracker.sizeClass size)
        rw [Finset.sum_update_of_mem hmem,
          Finset.sum_eq_add_sum_sdiff_singleton_of_mem hmem touched]
        omega
      rw [if_neg hknown, if_neg hknown]
      refine ⟨Function.update touched (HeapTracker.sizeClass size)
        (touched (HeapTracker.sizeClass size) + 1), fun i ↦ ?_, ?_, ?_⟩
      · rw [Function.update_apply, Function.update_apply, hhist]
        by_cases hi : i = HeapTracker.sizeClass size
        · rw [if_pos hi, if_pos hi, Nat.mod_add_mod]
        · rw [if_neg hi, if_neg hi, hhist]
      · rw [hsum, hobjs, Nat.mod_add_mod]
      · omega
  | allocated | freed | moved | resized | accessed | nothing =>
    exact ⟨touched, hhist, hobjs, hsame⟩

/-- Recording an event is counting it. -/
theorem record (ht : Tallied h es) (e : Event) : Tallied (h.record e) (es ++ [e]) where
  sizeHistogram := ht.record_sizeHistogram e
  counters _ hc := ht.record_counters e hc
  unsafeObjs := ht.record_unsafeObjs e

end Tallied

theorem tallied_foldl (es : List Event) : Tallied (es.foldl HeapTracker.record .new) es := by
  induction es using List.reverseRecOn with
  | nil => exact .new
  | append_singleton es e ih =>
    rw [List.foldl_append]
    exact ih.record e

theorem tallied_runCalls (calls : List Call) :
    Tallied (runCalls calls).tracker (events calls) := by
  rw [runCalls_tracker]
  exact tallied_foldl _

/-! ## The number of live objects -/

theorem HeapTracker.liveObjs_record (h : HeapTracker) (e : Event) :
    (h.record e).liveObjs = match e with
      | .allocated base size => h.liveObjs.insert base size
      | .freed base => h.liveObjs.erase base
      | .moved base newBase _ newSize => (h.liveObjs.erase base).insert newBase newSize
      | .resized base _ newSize => h.liveObjs.insert base newSize
      | .accessed | .unsafeAccessed _ _ _ | .nothing => h.liveObjs := by
  cases e with
  | unsafeAccessed base size isLoad =>
    rw [record]
    split
    · rfl
    · rfl
  | moved | resized => simp [record]
  | allocated | freed | accessed | nothing => rfl

/-- The entries are the allocations that have not been freed. -/
def Populated (s : State) (es : List Event) : Prop :=
  s.tracker.liveObjs.size + es.countP (Event.counted .totalDealloc)
    = es.countP (Event.counted .totalAlloc)

theorem size_pos_of_contains {m : Std.ExtTreeMap ℕ ℕ} {b : ℕ} (h : m.contains b = true) :
    0 < m.size := by
  have hmem : b ∈ m := Std.ExtTreeMap.contains_iff_mem.mp h
  by_contra hzero
  have hempty : m.isEmpty = true := by
    rw [Std.ExtTreeMap.isEmpty_eq_size_beq_zero]
    simpa using hzero
  rw [Std.ExtTreeMap.isEmpty_iff] at hempty
  rw [hempty] at hmem
  simp at hmem

/-- Every event changes the number of entries by what it counts. -/
theorem Populated.step {s s' : State} {es : List Event} {e : Event} (h : Populated s es)
    (hexact : Exact s) (hhappens : Happens s s' e) (hrecord : s'.tracker = s.tracker.record e) :
    Populated s' (es ++ [e]) := by
  have hfresh : ∀ b, ¬s.Live b → s.tracker.liveObjs.contains b = false := fun b hb ↦
    Bool.eq_false_iff.mpr (mt (hexact.live_iff b).mpr hb)
  rw [Populated] at h ⊢
  rw [hrecord, HeapTracker.liveObjs_record, List.countP_append, List.countP_append,
    List.countP_singleton, List.countP_singleton]
  cases hhappens with
  | allocated hnew _ =>
    simp only [Event.counted, Std.ExtTreeMap.size_insert, hfresh _ hnew]
    simp
    omega
  | freed hbase _ =>
    have hcontains := (hexact.live_iff _).mp hbase
    have hpos := size_pos_of_contains hcontains
    simp only [Event.counted, Std.ExtTreeMap.size_erase, hcontains]
    simp
    omega
  | @moved base newBase oldSize newSize hbase hnew _ =>
    have hcontains := (hexact.live_iff _).mp hbase
    have hpos := size_pos_of_contains hcontains
    have hnew' : (s.tracker.liveObjs.erase base).contains newBase = false := by
      simp [Std.ExtTreeMap.contains_erase, hfresh _ hnew]
    simp only [Event.counted, Std.ExtTreeMap.size_insert, hnew', Std.ExtTreeMap.size_erase,
      hcontains]
    simp
    omega
  | resized hbase _ =>
    simp only [Event.counted, Std.ExtTreeMap.size_insert, (hexact.live_iff _).mp hbase]
    simpa using h
  | @unsafeAccessed base size isLoad _ _ =>
    cases isLoad <;> simpa [Event.counted] using h
  | accessed | nothing => simpa [Event.counted] using h

theorem populated_runCalls (calls : List Call) : Populated (runCalls calls) (events calls) :=
  run_events_induction (P := Populated) (by simp [Populated, Shared.new, HeapTracker.new])
    (fun _ _ _ _ h hexact _ hhappens hrecord ↦ h.step hexact hhappens hrecord) calls

/-- There are fewer live blocks than addresses. -/
theorem size_liveObjs_lt (calls : List Call) :
    (runCalls calls).tracker.liveObjs.size < 2 ^ 64 := by
  have hexact := exact_runCalls calls
  set m := (runCalls calls).tracker.liveObjs with hm
  have hsubset : m.keys.toFinset ⊆ Finset.Ico 1 (2 ^ 64) := by
    intro b hb
    rw [List.mem_toFinset, Std.ExtTreeMap.mem_keys, Std.ExtTreeMap.mem_iff_isSome_getElem?] at hb
    obtain ⟨n, hn⟩ := Option.isSome_iff_exists.mp hb
    obtain ⟨blk, hblk, -⟩ := hexact.block hn
    have hpos := (runCalls calls).blocks.nonnull hblk
    have hbelow := (runCalls calls).blocks.below hblk
    exact Finset.mem_Ico.mpr ⟨hpos, by omega⟩
  have hcard := Finset.card_le_card hsubset
  have hnodup : m.keys.Nodup := Std.ExtTreeMap.nodup_keys
  rw [List.toFinset_card_of_nodup hnodup, Std.ExtTreeMap.length_keys, Nat.card_Ico] at hcard
  omega

/-! ## The report -/

/-- The figures of the report. -/
structure Report where
  counters : HeapCounter → ℕ
  sizeHistogram : List ℕ
  unsafeSizeHistogram : List ℕ

/-- The figures of a tracker. -/
def HeapTracker.report (h : HeapTracker) : Report where
  counters := h.counters
  sizeHistogram := (List.finRange objSizeNum).map h.sizeHistogram
  unsafeSizeHistogram := (List.finRange objSizeNum).map h.unsafeSizeHistogram

/-- The figures of a histogram, separated by semicolons. -/
def histogramText (figures : List ℕ) : Text := "; ".toList.intercalate (figures.map Text.ofNat)

/-- The text that `dump_stats` prints. -/
def Report.output (r : Report) : Text :=
  "\n===== Heap Usage Statistics =====\n".toList
    ++ "Total heap usage: ".toList ++ Text.ofNat (r.counters .totalUsage) ++ " bytes\n".toList
    ++ "Total heap allocations: ".toList ++ Text.ofNat (r.counters .totalAlloc) ++ "\n".toList
    ++ "Total heap re-allocations: ".toList ++ Text.ofNat (r.counters .totalRealloc)
    ++ "\n".toList
    ++ "Total heap deallocations: ".toList ++ Text.ofNat (r.counters .totalDealloc) ++ "\n".toList
    ++ "Unsafe heap memory: ".toList ++ Text.ofNat (r.counters .unsafeMem) ++ "\n".toList
    ++ "Unsafe heap objects: ".toList ++ Text.ofNat (r.counters .totalUnsafeObjs) ++ "\n".toList
    ++ "Unsafe memory instructions: ".toList ++ Text.ofNat (r.counters .totalMemInsts)
    ++ "\n".toList
    ++ "Unsafe load: ".toList ++ Text.ofNat (r.counters .unsafeLoad) ++ "\n".toList
    ++ "Unsafe store: ".toList ++ Text.ofNat (r.counters .unsafeStore) ++ "\n".toList
    ++ "Size histogram: ".toList ++ histogramText r.sizeHistogram ++ "\n".toList
    ++ "Unsafe size histogram: ".toList ++ histogramText r.unsafeSizeHistogram ++ "\n".toList

section Code

variable {τ : Type} [DecidableEq τ]

/-- `counter.load()`. -/
def loadCounter (_t : τ) (c : HeapCounter) : Program (Shared τ) ℕ := .load (·.tracker.counters c)

/-- Calls that formatting makes. -/
def runFormatting (t : τ) : List Call → ThreadM Bool (Shared τ) Unit
  | [] => return
  | call :: calls => do
    call.code t
    runFormatting t calls

/-- `size_hisogram_to_str`: between the reads of two figures, formatting makes calls of its own. -/
def sizeHistogramToStr (t : τ) (histogram : HeapTracker → Fin objSizeNum → ℕ)
    (formatting : Fin objSizeNum → List Call) :
    List (Fin objSizeNum) → ThreadM Bool (Shared τ) (List ℕ)
  | [] => return []
  | i :: is => do
    let v ← (Program.load fun s ↦ histogram s.tracker i : Program (Shared τ) ℕ)
    runFormatting t (formatting i)
    let vs ← sizeHistogramToStr t histogram formatting is
    return v :: vs

/-- `HeapTracker::dump_stats`, up to the writing of its output. -/
def dumpStats (t : τ) (formatting unsafeFormatting : Fin objSizeNum → List Call) :
    ThreadM Bool (Shared τ) Text := do
  let heapUsage ← loadCounter t .totalUsage
  let heapAlloc ← loadCounter t .totalAlloc
  let heapRealloc ← loadCounter t .totalRealloc
  let heapDealloc ← loadCounter t .totalDealloc
  let unsafeMem ← loadCounter t .unsafeMem
  let unsafeObjs ← loadCounter t .totalUnsafeObjs
  let totalMemInsts ← loadCounter t .totalMemInsts
  let unsafeLoad ← loadCounter t .unsafeLoad
  let unsafeStore ← loadCounter t .unsafeStore
  set true
  let sizeHisto ← sizeHistogramToStr t (·.sizeHistogram) formatting (List.finRange objSizeNum)
  let unsafeSizeHisto ←
    sizeHistogramToStr t (·.unsafeSizeHistogram) unsafeFormatting (List.finRange objSizeNum)
  let report : Report :=
    { counters := fun
        | .totalUsage => heapUsage
        | .totalAlloc => heapAlloc
        | .totalRealloc => heapRealloc
        | .totalDealloc => heapDealloc
        | .totalUnsafeObjs => unsafeObjs
        | .unsafeMem => unsafeMem
        | .totalMemInsts => totalMemInsts
        | .unsafeLoad => unsafeLoad
        | .unsafeStore => unsafeStore
      sizeHistogram := sizeHisto
      unsafeSizeHistogram := unsafeSizeHisto }
  return report.output

end Code

/-! ### What is done with the flag set leaves the histograms alone -/

/-- The histograms are the same. -/
def SameHistograms (h h' : HeapTracker) : Prop :=
  h'.sizeHistogram = h.sizeHistogram ∧ h'.unsafeSizeHistogram = h.unsafeSizeHistogram

section Exec

variable {τ : Type} (t : τ) (s : Shared τ)

theorem sameHistograms_skipped (call : Call) : SameHistograms s.tracker (call.skipped s) := by
  cases call with
  | realloc ptr layout newSize answer =>
    rw [Call.skipped]
    split
    · exact ⟨HeapTracker.sizeHistogram_adjust .., HeapTracker.unsafeSizeHistogram_adjust ..⟩
    · exact ⟨rfl, rfl⟩
  | alloc | allocZeroed | dealloc | memAccess | unsafeMemAccess => exact ⟨rfl, rfl⟩

variable [DecidableEq τ]

theorem runFormatting_exec (calls : List Call) :
    (((runFormatting t calls).run true).exec s).1.2 = true ∧
      SameHistograms s.tracker (((runFormatting t calls).run true).exec s).2.tracker := by
  induction calls generalizing s with
  | nil => exact ⟨rfl, rfl, rfl⟩
  | cons call calls ih =>
    obtain ⟨hskip, htracker⟩ := code_exec_skip t s call
    have hcall := sameHistograms_skipped s call
    rw [← htracker] at hcall
    obtain ⟨hskip', hsize', htouch'⟩ := ih (((call.code t).run true).exec s).2
    simp only [runFormatting, ThreadM.run_bind, Program.exec_bind, hskip]
    exact ⟨hskip', hsize'.trans hcall.1, htouch'.trans hcall.2⟩

/-- The figures read are those of the histogram before the formatting. -/
theorem sizeHistogramToStr_exec (histogram : HeapTracker → Fin objSizeNum → ℕ)
    (hhistogram : ∀ h h', SameHistograms h h' → histogram h' = histogram h)
    (formatting : Fin objSizeNum → List Call) (is : List (Fin objSizeNum)) :
    (((sizeHistogramToStr t histogram formatting is).run true).exec s).1
        = (is.map (histogram s.tracker), true) ∧
      SameHistograms s.tracker
        (((sizeHistogramToStr t histogram formatting is).run true).exec s).2.tracker := by
  induction is generalizing s with
  | nil => exact ⟨rfl, rfl, rfl⟩
  | cons i is ih =>
    obtain ⟨hskip, hsame⟩ := runFormatting_exec t s (formatting i)
    obtain ⟨hvs, hsame'⟩ := ih (((runFormatting t (formatting i)).run true).exec s).2
    rw [hhistogram _ _ hsame] at hvs
    simp only [sizeHistogramToStr, ThreadM.run_bind, ThreadM.run_lift, ThreadM.run_pure,
      Program.exec_bind, Program.exec_load, Program.exec_done, hskip, hvs, List.map_cons]
    exact ⟨trivial, hsame'.1.trans hsame.1, hsame'.2.trans hsame.2⟩

/-- What `dump_stats` prints are the figures of the tracker before it, whatever the formatting
allocates. -/
theorem dumpStats_exec (formatting unsafeFormatting : Fin objSizeNum → List Call) :
    (((dumpStats t formatting unsafeFormatting).run false).exec s).1.1 = s.tracker.report.output := by
  obtain ⟨hsize, hsame⟩ := sizeHistogramToStr_exec t s (·.sizeHistogram) (fun _ _ h ↦ h.1) formatting
    (List.finRange objSizeNum)
  obtain ⟨htouch, -⟩ := sizeHistogramToStr_exec t
    (((sizeHistogramToStr t (·.sizeHistogram) formatting (List.finRange objSizeNum)).run true).exec
      s).2 (·.unsafeSizeHistogram) (fun _ _ h ↦ h.2) unsafeFormatting (List.finRange objSizeNum)
  rw [hsame.2] at htouch
  simp only [dumpStats, loadCounter, ThreadM.run_bind, ThreadM.run_lift, ThreadM.run_set,
    ThreadM.run_pure, Program.exec_bind, Program.exec_load, Program.exec_done, hsize, htouch]
  rfl

end Exec

/-! ### The identities -/

/-- The histograms of the report agree with the events and with its counters, in the arithmetic of
the counters, and exactly when fewer than `2 ^ 64` events have happened. -/
structure Report.Consistent (r : Report) (es : List Event) : Prop where
  sizeHistogram : r.sizeHistogram
    = (List.finRange objSizeNum).map fun i ↦ es.countP (Event.recordedIn i) % 2 ^ 64
  sum_sizeHistogram : r.sizeHistogram.sum % 2 ^ 64
    = (r.counters .totalAlloc + r.counters .totalRealloc) % 2 ^ 64
  sum_unsafeSizeHistogram : r.unsafeSizeHistogram.sum % 2 ^ 64 = r.counters .totalUnsafeObjs
  sizeHistogram_of_lt : es.length < 2 ^ 64 → r.sizeHistogram
    = (List.finRange objSizeNum).map fun i ↦ es.countP (Event.recordedIn i)
  sum_sizeHistogram_of_lt : es.length < 2 ^ 64 →
    r.sizeHistogram.sum = r.counters .totalAlloc + r.counters .totalRealloc
  sum_unsafeSizeHistogram_of_lt : es.length < 2 ^ 64 →
    r.unsafeSizeHistogram.sum = r.counters .totalUnsafeObjs

namespace Tallied

variable {h : HeapTracker} {es : List Event}

theorem sum_sizeHistogram (ht : Tallied h es) : h.report.sizeHistogram.sum
    = ∑ i, es.countP (Event.recordedIn i) % 2 ^ 64 := by
  rw [HeapTracker.report, ← Fin.sum_univ_def]
  exact Finset.sum_congr rfl fun i _ ↦ ht.sizeHistogram i

theorem countP_mod {p : Event → Bool} (hlt : es.length < 2 ^ 64) :
    es.countP p % 2 ^ 64 = es.countP p :=
  Nat.mod_eq_of_lt (List.countP_le_length.trans_lt hlt)

theorem consistent (ht : Tallied h es) : h.report.Consistent es := by
  obtain ⟨touched, htouched, hobjs, hle⟩ := ht.unsafeObjs
  have hhist : h.report.unsafeSizeHistogram.sum = ∑ i, touched i % 2 ^ 64 := by
    rw [HeapTracker.report, ← Fin.sum_univ_def]
    exact Finset.sum_congr rfl fun i _ ↦ htouched i
  have halloc : h.report.counters .totalAlloc = _ := ht.counters .totalAlloc (by decide)
  have hrealloc : h.report.counters .totalRealloc = _ := ht.counters .totalRealloc (by decide)
  have hsum := sum_countP_recordedIn es
  constructor
  · exact List.map_congr_left fun i _ ↦ ht.sizeHistogram i
  · rw [ht.sum_sizeHistogram, ← Finset.sum_nat_mod, hsum, halloc, hrealloc, ← Nat.add_mod]
  · rw [hhist, ← Finset.sum_nat_mod]
    exact hobjs.symm
  · intro hlt
    refine List.map_congr_left fun i _ ↦ ?_
    rw [ht.sizeHistogram i, countP_mod hlt]
  · intro hlt
    rw [ht.sum_sizeHistogram, halloc, hrealloc]
    simp only [countP_mod hlt, hsum]
  · intro hlt
    have hlt' : ∀ i, touched i < 2 ^ 64 := fun i ↦
      (Finset.single_le_sum (fun _ _ ↦ Nat.zero_le _) (Finset.mem_univ i)).trans_lt (hle.trans_lt hlt)
    have htotal : h.report.counters .totalUnsafeObjs = ∑ i, touched i :=
      hobjs.trans (Nat.mod_eq_of_lt (hle.trans_lt hlt))
    rw [hhist, htotal]
    exact Finset.sum_congr rfl fun i _ ↦ Nat.mod_eq_of_lt (hlt' i)

/-- The number of live objects, from the counters. -/
theorem size_liveObjs {s : State} (ht : Tallied s.tracker es) (hp : Populated s es)
    (hlt : s.tracker.liveObjs.size < 2 ^ 64) : s.tracker.liveObjs.size
      = (s.tracker.counters .totalAlloc + (2 ^ 64 - s.tracker.counters .totalDealloc)) % 2 ^ 64 := by
  rw [Populated] at hp
  rw [ht.counters .totalAlloc (by decide), ht.counters .totalDealloc (by decide)]
  omega

end Tallied

/-- After every sequence of calls the histograms of the tracker agree with what was allocated, moved
and touched, the map has as many entries as blocks were allocated and not freed, and `dump_stats`
prints these figures whatever formatting them allocates. -/
theorem heap_report_consistent (calls : List Call) :
    (runCalls calls).tracker.report.Consistent (events calls) ∧
      (runCalls calls).tracker.liveObjs.size
        = ((runCalls calls).tracker.counters .totalAlloc
          + (2 ^ 64 - (runCalls calls).tracker.counters .totalDealloc)) % 2 ^ 64 ∧
      ((events calls).length < 2 ^ 64 →
        (runCalls calls).tracker.liveObjs.size + (runCalls calls).tracker.counters .totalDealloc
          = (runCalls calls).tracker.counters .totalAlloc) ∧
      ∀ formatting unsafeFormatting : Fin objSizeNum → List Call,
        (((dumpStats () formatting unsafeFormatting).run false).exec (runCalls calls)).1.1
          = (runCalls calls).tracker.report.output := by
  have htallied := tallied_runCalls calls
  have hpopulated := populated_runCalls calls
  refine ⟨htallied.consistent, htallied.size_liveObjs hpopulated (size_liveObjs_lt calls),
    fun hlt ↦ ?_, fun formatting unsafeFormatting ↦ dumpStats_exec () _ formatting unsafeFormatting⟩
  rw [htallied.counters .totalAlloc (by decide), htallied.counters .totalDealloc (by decide),
    Tallied.countP_mod hlt, Tallied.countP_mod hlt]
  exact hpopulated

end UnsafePerf.Heap
