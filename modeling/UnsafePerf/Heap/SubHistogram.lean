import UnsafePerf.Heap.Report

/-!
# Unsafe objects and size classes

An object enters the size histogram when it is allocated or moved, and the unsafe histogram when
unsafe code first accesses it. The second entry is made with the size the object has by then, and a
resize in place changes this size without a new entry in the first histogram. So the unsafe
histogram may count an object in a class in which the size histogram never counted one.

The argument keeps, for every live object not yet accessed by unsafe code, the class it was counted
in (`untouched`). Each of them accounts for one entry of the size histogram that the unsafe
histogram has not used up. As long as a first access finds its object in the class the object was
counted in, it uses up an entry of that class, and no class of the unsafe histogram can overtake.
-/

open Concurrency Ranges

namespace UnsafePerf.Heap

/-! ## Labels with finite fibers -/

/-- The fibers of a labelling are given as finite sets. -/
def Fibers {ι κ : Type} (w : κ → Finset ι) (f : ι → Option κ) : Prop :=
  ∀ c b, b ∈ w c ↔ f b = some c

namespace Fibers

variable {ι κ : Type} [DecidableEq ι] [DecidableEq κ] {w : κ → Finset ι} {f : ι → Option κ}

/-- A new label adds one element to its fiber. -/
theorem add (h : Fibers w f) {b : ι} (hb : f b = none) (c : κ) :
    ∃ w', Fibers w' (Function.update f b (some c)) ∧
      ∀ d, (w' d).card = (w d).card + if d = c then 1 else 0 := by
  refine ⟨Function.update w c (insert b (w c)), fun d b' ↦ ?_, fun d ↦ ?_⟩
  · by_cases hd : d = c
    · subst hd
      rw [Function.update_self, Finset.mem_insert, h d b', Function.update_apply]
      by_cases hb' : b' = b
      · simp [hb']
      · simp [hb']
    · rw [Function.update_of_ne hd, h d b', Function.update_apply]
      by_cases hb' : b' = b
      · simp [hb', hb, Ne.symm hd]
      · simp [hb']
  · by_cases hd : d = c
    · subst hd
      have hnotMem : b ∉ w d := by simp [h d b, hb]
      rw [Function.update_self, Finset.card_insert_of_notMem hnotMem, if_pos rfl]
    · rw [Function.update_of_ne hd, if_neg hd, Nat.add_zero]

/-- Taking a label away takes one element from its fiber. -/
theorem remove (h : Fibers w f) (b : ι) :
    ∃ w', Fibers w' (Function.update f b none) ∧
      ∀ d, (w' d).card + (if f b = some d then 1 else 0) = (w d).card := by
  refine ⟨fun d ↦ (w d).erase b, fun d b' ↦ ?_, fun d ↦ ?_⟩
  · rw [Finset.mem_erase, h d b', Function.update_apply]
    by_cases hb' : b' = b
    · simp [hb']
    · simp [hb']
  · by_cases hd : f b = some d
    · rw [if_pos hd]
      exact Finset.card_erase_add_one ((h d b).mpr hd)
    · have hnotMem : b ∉ w d := mt (h d b).mp hd
      rw [if_neg hd, Nat.add_zero]
      exact congrArg Finset.card (Finset.erase_eq_of_notMem hnotMem)

end Fibers

/-! ## Objects that unsafe code has not accessed -/

/-- What an event does to the classes of the untouched objects. -/
def noteUntouched (f : ℕ → Option (Fin objSizeNum)) : Event → ℕ → Option (Fin objSizeNum)
  | .allocated base size => Function.update f base (some (HeapTracker.sizeClass size))
  | .freed base => Function.update f base none
  | .moved base newBase _ newSize =>
    Function.update (Function.update f base none) newBase (some (HeapTracker.sizeClass newSize))
  | .unsafeAccessed base _ _ => Function.update f base none
  | .resized _ _ _ | .accessed | .nothing => f

/-- The class in which the size histogram counted the live object with this base, as long as unsafe
code has not accessed the object since. -/
def untouched (es : List Event) : ℕ → Option (Fin objSizeNum) :=
  es.foldl noteUntouched fun _ ↦ none

/-- The first access by unsafe code finds the object in the class it was counted in, and an entry in
the size histogram does not wrap. -/
def Event.KeepsClass (h : HeapTracker) (f : ℕ → Option (Fin objSizeNum)) : Event → Prop
  | .allocated _ size | .moved _ _ _ size =>
    h.sizeHistogram (HeapTracker.sizeClass size) + 1 < 2 ^ 64
  | .unsafeAccessed base size _ =>
    h.liveUnsafeObjs.contains base = true ∨ f base = some (HeapTracker.sizeClass size)
  | .freed _ | .resized _ _ _ | .accessed | .nothing => True

instance (h : HeapTracker) (f : ℕ → Option (Fin objSizeNum)) :
    (e : Event) → Decidable (e.KeepsClass h f)
  | .allocated _ _ | .moved _ _ _ _ => inferInstanceAs (Decidable (_ < _))
  | .unsafeAccessed _ _ _ => inferInstanceAs (Decidable (_ ∨ _))
  | .freed _ | .resized _ _ _ | .accessed | .nothing => inferInstanceAs (Decidable True)

/-! ## The invariant -/

/-- Every untouched object holds an entry of the size histogram that the unsafe histogram has not
used up. -/
structure SubHistogram (live : ℕ → Prop) (h : HeapTracker) (f : ℕ → Option (Fin objSizeNum)) :
    Prop where
  reserved : ∃ w, Fibers w f ∧ ∀ i, h.unsafeSizeHistogram i + (w i).card ≤ h.sizeHistogram i
  /-- Only live objects are untouched. -/
  live : ∀ b, (f b).isSome → live b
  lt : ∀ i, h.sizeHistogram i < 2 ^ 64

namespace SubHistogram

variable {live live' : ℕ → Prop} {h : HeapTracker} {f : ℕ → Option (Fin objSizeNum)}

theorem le (hs : SubHistogram live h f) (i : Fin objSizeNum) :
    h.unsafeSizeHistogram i ≤ h.sizeHistogram i := by
  obtain ⟨w, -, hle⟩ := hs.reserved
  exact (Nat.le_add_right _ _).trans (hle i)

theorem new : SubHistogram (.new : State).Live .new fun _ ↦ none where
  reserved := ⟨fun _ ↦ ∅, fun c b ↦ by simp, fun i ↦ by simp [HeapTracker.new]⟩
  live b hb := absurd hb (by simp)
  lt i := by simp [HeapTracker.new]

/-- An event that enters nothing into either histogram. -/
theorem congr (hs : SubHistogram live h f) {h' : HeapTracker} (hlive : ∀ b, live' b ↔ live b)
    (hsize : h'.sizeHistogram = h.sizeHistogram)
    (htouch : h'.unsafeSizeHistogram = h.unsafeSizeHistogram) : SubHistogram live' h' f where
  reserved := by
    rw [hsize, htouch]
    exact hs.reserved
  live b hb := (hlive b).mpr (hs.live b hb)
  lt := hsize ▸ hs.lt

/-- An object that ends, or that is accessed again, gives its entry away. -/
theorem release (hs : SubHistogram live h f) {h' : HeapTracker} (base : ℕ)
    (hlive : ∀ b ≠ base, live b → live' b) (hsize : h'.sizeHistogram = h.sizeHistogram)
    (htouch : h'.unsafeSizeHistogram = h.unsafeSizeHistogram) :
    SubHistogram live' h' (Function.update f base none) where
  reserved := by
    obtain ⟨w, hw, hle⟩ := hs.reserved
    obtain ⟨w', hw', hcard⟩ := hw.remove base
    refine ⟨w', hw', fun i ↦ ?_⟩
    have hi := hle i
    have hci := hcard i
    rw [hsize, htouch]
    omega
  live b hb := by
    rw [Function.update_apply] at hb
    split at hb
    · simp at hb
    · next hne => exact hlive b hne (hs.live b hb)
  lt := hsize ▸ hs.lt

/-- A new entry of the size histogram is reserved for its object. -/
theorem enter (hs : SubHistogram live h f) {h' : HeapTracker} {base size : ℕ}
    (hnone : f base = none) (hbase : live' base) (hlive : ∀ b, live b → live' b)
    (hroom : h.sizeHistogram (HeapTracker.sizeClass size) + 1 < 2 ^ 64)
    (hsize : h'.sizeHistogram = Function.update h.sizeHistogram (HeapTracker.sizeClass size)
      ((h.sizeHistogram (HeapTracker.sizeClass size) + 1) % 2 ^ 64))
    (htouch : h'.unsafeSizeHistogram = h.unsafeSizeHistogram) :
    SubHistogram live' h' (Function.update f base (some (HeapTracker.sizeClass size))) where
  reserved := by
    obtain ⟨w, hw, hle⟩ := hs.reserved
    obtain ⟨w', hw', hcard⟩ := hw.add hnone (HeapTracker.sizeClass size)
    refine ⟨w', hw', fun i ↦ ?_⟩
    have hi := hle i
    rw [hsize, htouch, hcard i, Nat.mod_eq_of_lt hroom, Function.update_apply]
    split
    · next heq =>
      rw [heq] at hi ⊢
      omega
    · omega
  live b hb := by
    rw [Function.update_apply] at hb
    split at hb
    · next heq => exact heq ▸ hbase
    · exact hlive b (hs.live b hb)
  lt i := by
    rw [hsize, Function.update_apply]
    split
    · exact Nat.mod_lt _ (by decide)
    · exact hs.lt i

/-- The first access uses up the entry that is reserved for the object. -/
theorem touch (hs : SubHistogram live h f) {h' : HeapTracker} {base size : ℕ}
    (hclass : f base = some (HeapTracker.sizeClass size)) (hlive : ∀ b, live' b ↔ live b)
    (hsize : h'.sizeHistogram = h.sizeHistogram)
    (htouch : h'.unsafeSizeHistogram = Function.update h.unsafeSizeHistogram
      (HeapTracker.sizeClass size)
      ((h.unsafeSizeHistogram (HeapTracker.sizeClass size) + 1) % 2 ^ 64)) :
    SubHistogram live' h' (Function.update f base none) where
  reserved := by
    obtain ⟨w, hw, hle⟩ := hs.reserved
    obtain ⟨w', hw', hcard⟩ := hw.remove base
    refine ⟨w', hw', fun i ↦ ?_⟩
    have hi := hle i
    have hci := hcard i
    have hmod := Nat.mod_le (h.unsafeSizeHistogram (HeapTracker.sizeClass size) + 1) (2 ^ 64)
    rw [hsize, htouch, Function.update_apply]
    by_cases heq : i = HeapTracker.sizeClass size
    · rw [if_pos (heq ▸ hclass)] at hci
      rw [if_pos heq]
      rw [heq] at hi hci ⊢
      omega
    · rw [if_neg heq]
      omega
  live b hb := by
    rw [Function.update_apply] at hb
    split at hb
    · simp at hb
    · exact (hlive b).mpr (hs.live b hb)
  lt := hsize ▸ hs.lt

/-- An object that is not live holds no entry. -/
theorem eq_none (hs : SubHistogram live h f) {b : ℕ} (hb : ¬live b) : f b = none :=
  Option.not_isSome_iff_eq_none.mp (mt (hs.live b) hb)

/-- An event that meets the condition keeps the invariant. -/
theorem step {s s' : State} {e : Event} (hs : SubHistogram s.Live s.tracker f)
    (hhappens : Happens s s' e) (hrecord : s'.tracker = s.tracker.record e)
    (hkeeps : e.KeepsClass s.tracker f) :
    SubHistogram s'.Live s'.tracker (noteUntouched f e) := by
  have hsize := s.tracker.sizeHistogram_record e
  have htouch := s.tracker.unsafeSizeHistogram_record e
  rw [← hrecord] at hsize htouch
  cases hhappens with
  | @allocated base size hfresh hlive =>
    exact hs.enter (hs.eq_none hfresh) ((hlive base).mpr (.inl rfl)) (fun b hb ↦ (hlive b).mpr (.inr hb))
      hkeeps hsize htouch
  | @freed base hbase hlive =>
    exact hs.release base (fun b hne hb ↦ (hlive b).mpr ⟨hne, hb⟩) hsize htouch
  | @moved base newBase oldSize newSize hbase hfresh hlive =>
    have hreleased : SubHistogram (fun b ↦ b ≠ base ∧ s.Live b) s.tracker
        (Function.update f base none) :=
      hs.release base (fun b hne hb ↦ ⟨hne, hb⟩) rfl rfl
    exact hreleased.enter (hreleased.eq_none fun hnew ↦ hfresh hnew.2)
      ((hlive newBase).mpr (.inl rfl)) (fun b hb ↦ (hlive b).mpr (.inr hb)) hkeeps hsize htouch
  | resized hbase hlive => exact hs.congr hlive hsize htouch
  | accessed hlive => exact hs.congr hlive hsize htouch
  | @unsafeAccessed base size isLoad hbase hlive =>
    dsimp only at htouch
    split at htouch
    · exact hs.release base (fun b _ hb ↦ (hlive b).mpr hb) hsize htouch
    · next hnew => exact hs.touch (hkeeps.resolve_left hnew) hlive hsize htouch
  | nothing hlive => exact hs.congr hlive hsize htouch

end SubHistogram

/-! ## Runs -/

/-- In a run whose calls all meet the condition, the unsafe histogram is at most the size histogram
in every class, in every state. -/
theorem unsafe_histogram_le (calls : List Call)
    (hcalls : ∀ (i : ℕ) (hi : i < calls.length),
      calls[i].Allowed () (runCalls (calls.take i)) →
        (calls[i].event (runCalls (calls.take i))).KeepsClass (runCalls (calls.take i)).tracker
          (untouched (events (calls.take i)))) :
    ∀ n ≤ calls.length, ∀ i : Fin objSizeNum,
      (runCalls (calls.take n)).tracker.unsafeSizeHistogram i
        ≤ (runCalls (calls.take n)).tracker.sizeHistogram i := by
  suffices hsub : ∀ n ≤ calls.length, SubHistogram (runCalls (calls.take n)).Live
      (runCalls (calls.take n)).tracker (untouched (events (calls.take n))) from
    fun n hn ↦ (hsub n hn).le
  intro n hn
  induction n with
  | zero => exact .new
  | succ n ih =>
    have hprior := ih (Nat.le_of_succ_le hn)
    have hexact := exact_runCalls (calls.take n)
    rw [List.take_succ_eq_append_getElem hn, runCalls_append_singleton, Call.exec_eq,
      events_append_singleton]
    split
    · next hall =>
      rw [untouched, List.foldl_append]
      exact hprior.step (calls[n].happens hall) (calls[n].effect_tracker hexact) (hcalls n hn hall)
    · rwa [List.append_nil]

/-- An object that grows in place within its class, is accessed by unsafe code, and then grows
further. -/
def grownInPlace : List Call :=
  [.alloc ⟨100⟩ 4096, .realloc 4096 ⟨100⟩ 200 4096, .unsafeMemAccess 4196 true,
    .realloc 4096 ⟨200⟩ 4000 4096, .unsafeMemAccess 4196 false, .realloc 4096 ⟨4000⟩ 5000 16384,
    .unsafeMemAccess 16384 true, .dealloc 16384 ⟨5000⟩]

theorem unsafe_histogram_le_grownInPlace :
    (∀ (i : ℕ) (hi : i < grownInPlace.length),
      grownInPlace[i].Allowed () (runCalls (grownInPlace.take i)) →
        (grownInPlace[i].event (runCalls (grownInPlace.take i))).KeepsClass
          (runCalls (grownInPlace.take i)).tracker (untouched (events (grownInPlace.take i)))) ∧
    ∀ n ≤ grownInPlace.length, ∀ i : Fin objSizeNum,
      (runCalls (grownInPlace.take n)).tracker.unsafeSizeHistogram i
        ≤ (runCalls (grownInPlace.take n)).tracker.sizeHistogram i := by
  have hcalls : ∀ (i : ℕ) (hi : i < grownInPlace.length),
      grownInPlace[i].Allowed () (runCalls (grownInPlace.take i)) →
        (grownInPlace[i].event (runCalls (grownInPlace.take i))).KeepsClass
          (runCalls (grownInPlace.take i)).tracker
          (untouched (events (grownInPlace.take i))) := by
    decide +kernel
  exact ⟨hcalls, unsafe_histogram_le grownInPlace hcalls⟩

/-- An object that grows in place into another class before unsafe code reads it. -/
def outgrownClass : List Call :=
  [.alloc ⟨100⟩ 4096, .realloc 4096 ⟨100⟩ 4000 4096, .unsafeMemAccess 4096 true]

theorem unsafe_histogram_gt :
    ¬∀ (calls : List Call) (i : Fin objSizeNum), (runCalls calls).tracker.unsafeSizeHistogram i
      ≤ (runCalls calls).tracker.sizeHistogram i := by
  intro h
  have hgt : ¬(runCalls outgrownClass).tracker.unsafeSizeHistogram ⟨2, by decide⟩
      ≤ (runCalls outgrownClass).tracker.sizeHistogram ⟨2, by decide⟩ := by decide +kernel
  exact hgt (h outgrownClass ⟨2, by decide⟩)

end UnsafePerf.Heap
