import UnsafePerf.Heap.Report

/-!
# Lifetimes

A lifetime of an object starts at an allocation or where a block is moved to, goes on through every
resize in place, and ends when the block is freed or moved away. The tracker does not know
lifetimes: it keeps the base addresses of the objects that unsafe code has touched, and addresses
are used again and again.

The `Ledger` numbers the lifetimes and is kept from the events alone. The joint invariant of the two
is `Booked`: an address is in the tracker's set just if it is the base of a live block whose present
lifetime has been hit, so no lifetime is counted twice and none is taken for an earlier one.
-/

open Concurrency Ranges

namespace UnsafePerf.Heap

/-! ## The ledger -/

/-- The lifetimes so far. -/
structure Ledger where
  /-- The lifetime of the block with this base. -/
  current : ℕ → Option ℕ
  /-- The number of lifetimes begun. -/
  born : ℕ
  /-- The size of the block when unsafe code first accessed it in this lifetime. -/
  firstHit : ℕ → Option ℕ
  /-- The number of unsafe accesses to live blocks. -/
  hits : ℕ

namespace Ledger

/-- Nothing has happened. -/
def new : Ledger := ⟨fun _ ↦ none, 0, fun _ ↦ none, 0⟩

variable (l : Ledger)

/-- A lifetime starts. -/
def start (base : ℕ) : Ledger :=
  { l with current := Function.update l.current base (some l.born), born := l.born + 1 }

/-- A lifetime ends. -/
def finish (base : ℕ) : Ledger := { l with current := Function.update l.current base none }

/-- Unsafe code accesses a block. -/
def hit (base size : ℕ) : Ledger :=
  { l with
    firstHit := match l.current base with
      | none => l.firstHit
      | some i => Function.update l.firstHit i (some ((l.firstHit i).getD size))
    hits := l.hits + 1 }

/-- What an event does to the lifetimes. -/
def note : Event → Ledger
  | .allocated base _ => l.start base
  | .freed base => l.finish base
  | .moved base newBase _ _ => (l.finish base).start newBase
  | .resized _ _ _ | .accessed | .nothing => l
  | .unsafeAccessed base size _ => l.hit base size

/-- The lifetimes that unsafe code has hit. -/
def hitLifetimes : Finset ℕ := (Finset.range l.born).filter fun i ↦ (l.firstHit i).isSome

/-- The sizes at the first hits. -/
def firstHitBytes : ℕ := ∑ i ∈ l.hitLifetimes, (l.firstHit i).getD 0

end Ledger

/-- The lifetimes of a list of events. -/
def ledger (es : List Event) : Ledger := es.foldl Ledger.note .new

/-! ## The tracker's set -/

namespace HeapTracker

variable (h : HeapTracker)

theorem liveUnsafeObjs_adjust (oldSize newSize : ℕ) :
    (h.adjust oldSize newSize).liveUnsafeObjs = h.liveUnsafeObjs := by
  rw [adjust]
  split
  · rfl
  · rfl

theorem liveUnsafeObjs_record (e : Event) :
    (h.record e).liveUnsafeObjs = match e with
      | .freed base | .moved base _ _ _ => h.liveUnsafeObjs.erase base
      | .unsafeAccessed base _ _ => h.liveUnsafeObjs.insert base
      | .allocated _ _ | .resized _ _ _ | .accessed | .nothing => h.liveUnsafeObjs := by
  cases e with
  | unsafeAccessed base size isLoad =>
    rw [record]
    split
    · rfl
    · rfl
  | moved base newBase oldSize newSize =>
    rw [record, liveUnsafeObjs_adjust]
    rfl
  | resized base oldSize newSize =>
    rw [record, liveUnsafeObjs_adjust]
    rfl
  | allocated | freed | accessed | nothing => rfl

/-- The two figures of the objects that unsafe code touches. -/
theorem unsafeCounters_record (e : Event) {c : HeapCounter}
    (hc : c = .totalUnsafeObjs ∨ c = .unsafeMem) :
    (h.record e).counters c = match e with
      | .unsafeAccessed base size _ => if h.liveUnsafeObjs.contains base then h.counters c
        else (h.counters c + if c = .unsafeMem then size else 1) % 2 ^ 64
      | _ => h.counters c := by
  cases e with
  | unsafeAccessed base size isLoad =>
    dsimp only [record]
    by_cases hknown : h.liveUnsafeObjs.contains base = true
    · rw [if_pos hknown, if_pos hknown]
      rcases hc with rfl | rfl <;> cases isLoad <;> simp
    · rw [if_neg hknown, if_neg hknown]
      rcases hc with rfl | rfl <;> cases isLoad <;> simp
  | allocated | freed | moved | resized | accessed | nothing =>
    rcases hc with rfl | rfl <;> simp [record]

end HeapTracker

/-! ## The lifetimes of the live blocks -/

namespace Ledger

/-- The lifetimes of a ledger belong to the live blocks, one to each. -/
structure Current (l : Ledger) (live : ℕ → Prop) : Prop where
  live_iff : ∀ b, live b ↔ (l.current b).isSome
  lt : ∀ b i, l.current b = some i → i < l.born
  inj : ∀ b b' i, l.current b = some i → l.current b' = some i → b = b'
  unborn : ∀ i, l.born ≤ i → l.firstHit i = none

variable {l : Ledger}

theorem current_start (base b : ℕ) :
    (l.start base).current b = if b = base then some l.born else l.current b :=
  Function.update_apply ..

theorem current_finish (base b : ℕ) :
    (l.finish base).current b = if b = base then none else l.current b :=
  Function.update_apply ..

namespace Current

variable {live live' : ℕ → Prop}

theorem congr (h : l.Current live) (hlive : ∀ b, live' b ↔ live b) : l.Current live' where
  live_iff b := (hlive b).trans (h.live_iff b)
  lt := h.lt
  inj := h.inj
  unborn := h.unborn

theorem start (h : l.Current live) {base : ℕ} (hlive : ∀ b, live' b ↔ b = base ∨ live b) :
    (l.start base).Current live' where
  live_iff b := by
    rw [hlive, h.live_iff, current_start]
    split
    · next heq => simp [heq]
    · next hne => simp [hne]
  lt b i hb := by
    rw [current_start] at hb
    have hborn : (l.start base).born = l.born + 1 := rfl
    have hold := h.lt b i
    grind
  inj b b' i hb hb' := by
    rw [current_start] at hb hb'
    have hlt := h.lt b i
    have hlt' := h.lt b' i
    have hold := h.inj b b' i
    grind
  unborn i hi := h.unborn i (Nat.le_of_succ_le hi)

theorem finish (h : l.Current live) {base : ℕ} (hlive : ∀ b, live' b ↔ b ≠ base ∧ live b) :
    (l.finish base).Current live' where
  live_iff b := by
    rw [hlive, h.live_iff, current_finish]
    split
    · next heq => simp [heq]
    · next hne => simp [hne]
  lt b i hb := by
    rw [current_finish] at hb
    exact h.lt b i (Option.ite_none_left_eq_some.mp hb).2
  inj b b' i hb hb' := by
    rw [current_finish] at hb hb'
    exact h.inj b b' i (Option.ite_none_left_eq_some.mp hb).2 (Option.ite_none_left_eq_some.mp hb').2
  unborn := h.unborn

theorem hit (h : l.Current live) (base size : ℕ) : (l.hit base size).Current live where
  live_iff := h.live_iff
  lt := h.lt
  inj := h.inj
  unborn i hi := by
    have hold := h.unborn i hi
    cases hcurrent : l.current base with
    | none => simpa only [Ledger.hit, hcurrent] using hold
    | some j =>
      have hlt : j < l.born := h.lt base j hcurrent
      have hborn : l.born ≤ i := hi
      simp only [Ledger.hit, hcurrent]
      rw [Function.update_of_ne (by omega), hold]

end Current

/-! ## The lifetimes that have been hit -/

theorem mem_hitLifetimes {i : ℕ} : i ∈ l.hitLifetimes ↔ i < l.born ∧ (l.firstHit i).isSome := by
  rw [hitLifetimes, Finset.mem_filter, Finset.mem_range]

/-- A new lifetime has not been hit. -/
theorem hitLifetimes_start (hunborn : l.firstHit l.born = none) (base : ℕ) :
    (l.start base).hitLifetimes = l.hitLifetimes := by
  ext i
  have hborn : (l.start base).born = l.born + 1 := rfl
  have hfirst : (l.start base).firstHit = l.firstHit := rfl
  rw [mem_hitLifetimes, mem_hitLifetimes, hborn, hfirst]
  by_cases hi : i = l.born
  · simp [hi, hunborn]
  · have hiff : i < l.born + 1 ↔ i < l.born := by omega
    rw [hiff]

section Hit

variable {base size i : ℕ}

theorem firstHit_hit (hi : l.current base = some i) :
    (l.hit base size).firstHit
      = Function.update l.firstHit i (some ((l.firstHit i).getD size)) := by
  simp only [hit, hi]

/-- A second hit changes nothing. -/
theorem firstHit_hit_of_isSome (size : ℕ) (hi : l.current base = some i)
    (hhit : (l.firstHit i).isSome) :
    (l.hit base size).firstHit = l.firstHit := by
  obtain ⟨n, hn⟩ := Option.isSome_iff_exists.mp hhit
  rw [firstHit_hit hi, hn, Option.getD_some, ← hn, Function.update_eq_self]

variable (hi : l.current base = some i) (hlt : i < l.born)

include hi hlt

theorem hitLifetimes_hit : (l.hit base size).hitLifetimes = insert i l.hitLifetimes := by
  ext j
  have hborn : (l.hit base size).born = l.born := rfl
  rw [mem_hitLifetimes, Finset.mem_insert, mem_hitLifetimes, firstHit_hit hi, hborn,
    Function.update_apply]
  by_cases hj : j = i
  · simp [hj, hlt]
  · simp [hj]

variable (hnone : l.firstHit i = none)

include hnone

omit hi hlt in
theorem notMem_hitLifetimes : i ∉ l.hitLifetimes := by
  simp [mem_hitLifetimes, hnone]

/-- The first hit of a lifetime adds the lifetime. -/
theorem card_hitLifetimes_hit :
    (l.hit base size).hitLifetimes.card = l.hitLifetimes.card + 1 := by
  rw [hitLifetimes_hit hi hlt, Finset.card_insert_of_notMem (notMem_hitLifetimes hnone)]

/-- The first hit of a lifetime adds the size of its block. -/
theorem firstHitBytes_hit : (l.hit base size).firstHitBytes = l.firstHitBytes + size := by
  have hrest : ∑ j ∈ l.hitLifetimes, ((l.hit base size).firstHit j).getD 0 = l.firstHitBytes := by
    refine Finset.sum_congr rfl fun j hj ↦ ?_
    have hne : j ≠ i := fun heq ↦ notMem_hitLifetimes hnone (heq ▸ hj)
    rw [firstHit_hit hi, Function.update_of_ne hne]
  rw [firstHitBytes, hitLifetimes_hit hi hlt,
    Finset.sum_insert (notMem_hitLifetimes hnone), hrest, firstHit_hit hi, Function.update_self,
    hnone, Option.getD_none, Option.getD_some, Nat.add_comm]

end Hit

end Ledger

/-! ## The tracker agrees with the ledger -/

/-- The tracker agrees with the ledger. -/
structure Booked (live : ℕ → Prop) (tracker : HeapTracker) (l : Ledger) : Prop where
  current : l.Current live
  known : ∀ b, tracker.liveUnsafeObjs.contains b = true ↔
    ∃ i, l.current b = some i ∧ (l.firstHit i).isSome
  objs : tracker.counters .totalUnsafeObjs = l.hitLifetimes.card % 2 ^ 64
  mem : tracker.counters .unsafeMem = l.firstHitBytes % 2 ^ 64

namespace Booked

variable {live live' : ℕ → Prop} {tracker tracker' : HeapTracker} {l : Ledger}

theorem new : Booked (.new : State).Live .new .new where
  current := ⟨by simp [Shared.Live, Shared.new, Ledger.new], nofun, nofun, fun _ _ ↦ rfl⟩
  known := by simp [HeapTracker.new, Ledger.new]
  objs := rfl
  mem := rfl

/-- An address is not known where a lifetime starts. -/
theorem contains_eq_false (h : Booked live tracker l) {b : ℕ} (hb : ¬live b) :
    tracker.liveUnsafeObjs.contains b = false := by
  rw [h.current.live_iff, Option.not_isSome_iff_eq_none] at hb
  rw [Bool.eq_false_iff, ne_eq, h.known, hb]
  simp

/-- An event that touches neither the lifetimes nor what the tracker knows of them. -/
theorem congr (h : Booked live tracker l) (hlive : ∀ b, live' b ↔ live b)
    (hset : tracker'.liveUnsafeObjs = tracker.liveUnsafeObjs)
    (hcounters : ∀ c : HeapCounter, c = .totalUnsafeObjs ∨ c = .unsafeMem →
      tracker'.counters c = tracker.counters c) : Booked live' tracker' l where
  current := h.current.congr hlive
  known b := hset ▸ h.known b
  objs := (hcounters _ (.inl rfl)).trans h.objs
  mem := (hcounters _ (.inr rfl)).trans h.mem

theorem start (h : Booked live tracker l) {base : ℕ} (hfresh : ¬live base)
    (hlive : ∀ b, live' b ↔ b = base ∨ live b)
    (hset : tracker'.liveUnsafeObjs = tracker.liveUnsafeObjs)
    (hcounters : ∀ c : HeapCounter, c = .totalUnsafeObjs ∨ c = .unsafeMem →
      tracker'.counters c = tracker.counters c) : Booked live' tracker' (l.start base) where
  current := h.current.start hlive
  known b := by
    rw [hset, Ledger.current_start]
    have hfirst : (l.start base).firstHit = l.firstHit := rfl
    split
    · next heq =>
      rw [heq, h.contains_eq_false hfresh]
      simp [hfirst, h.current.unborn]
    · exact h.known b
  objs := by
    rw [hcounters _ (.inl rfl), h.objs,
      Ledger.hitLifetimes_start (h.current.unborn _ le_rfl)]
  mem := by
    rw [hcounters _ (.inr rfl), h.mem, Ledger.firstHitBytes, Ledger.firstHitBytes,
      Ledger.hitLifetimes_start (h.current.unborn _ le_rfl)]
    rfl

theorem finish (h : Booked live tracker l) {base : ℕ} (hlive : ∀ b, live' b ↔ b ≠ base ∧ live b)
    (hset : tracker'.liveUnsafeObjs = tracker.liveUnsafeObjs.erase base)
    (hcounters : ∀ c : HeapCounter, c = .totalUnsafeObjs ∨ c = .unsafeMem →
      tracker'.counters c = tracker.counters c) : Booked live' tracker' (l.finish base) where
  current := h.current.finish hlive
  known b := by
    rw [hset, Ledger.current_finish]
    have hfirst : (l.finish base).firstHit = l.firstHit := rfl
    have hknown := h.known b
    split
    · next heq => simp [heq]
    · next hne =>
      rw [Std.ExtTreeSet.contains_erase, hfirst]
      simpa [Ne.symm hne] using hknown
  objs := (hcounters _ (.inl rfl)).trans h.objs
  mem := (hcounters _ (.inr rfl)).trans h.mem

/-- After an access the block is known, and the others are known as before. -/
theorem known_hit (h : Booked live tracker l) {base size i : ℕ} (hi : l.current base = some i)
    (hset : tracker'.liveUnsafeObjs = tracker.liveUnsafeObjs.insert base) (b : ℕ) :
    tracker'.liveUnsafeObjs.contains b = true ↔
      ∃ j, (l.hit base size).current b = some j ∧ ((l.hit base size).firstHit j).isSome := by
  have hcurrent : (l.hit base size).current = l.current := rfl
  rw [hset, Std.ExtTreeSet.contains_insert, Bool.or_eq_true, h.known b, Ledger.firstHit_hit hi,
    hcurrent]
  by_cases hb : b = base
  · simp [hb, hi]
  · have hcompare : (compare base b == .eq) = false := by simp [Ne.symm hb]
    rw [hcompare, Bool.false_eq_true, false_or]
    refine exists_congr fun j ↦ and_congr_right fun hj ↦ ?_
    have hne : j ≠ i := fun heq ↦ hb (h.current.inj b base i (heq ▸ hj) hi)
    rw [Function.update_of_ne hne]

/-- The first access in a lifetime counts the block, a later one does not. -/
theorem hit (h : Booked live tracker l) {base size : ℕ} (isLoad : Bool) (hbase : live base)
    (hlive : ∀ b, live' b ↔ live b)
    (hrecord : tracker' = tracker.record (.unsafeAccessed base size isLoad)) :
    Booked live' tracker' (l.hit base size) := by
  obtain ⟨i, hi⟩ := Option.isSome_iff_exists.mp ((h.current.live_iff base).mp hbase)
  have hlt := h.current.lt base i hi
  have hset : tracker'.liveUnsafeObjs = tracker.liveUnsafeObjs.insert base := by
    rw [hrecord, HeapTracker.liveUnsafeObjs_record]
  have hcounters : ∀ c : HeapCounter, c = .totalUnsafeObjs ∨ c = .unsafeMem →
      tracker'.counters c = if tracker.liveUnsafeObjs.contains base then tracker.counters c
        else (tracker.counters c + if c = .unsafeMem then size else 1) % 2 ^ 64 := by
    intro c hc
    rw [hrecord, HeapTracker.unsafeCounters_record _ _ hc]
  have hborn : (l.hit base size).born = l.born := rfl
  have hobjs := hcounters _ (.inl rfl)
  have hmem := hcounters _ (.inr rfl)
  cases hfirst : l.firstHit i with
  | some n =>
    -- the block has been counted in this lifetime
    have hhit : (l.firstHit i).isSome := by rw [hfirst, Option.isSome_some]
    have hknown : tracker.liveUnsafeObjs.contains base = true := (h.known base).mpr ⟨i, hi, hhit⟩
    have hsame := Ledger.firstHit_hit_of_isSome size hi hhit
    have hlifetimes : (l.hit base size).hitLifetimes = l.hitLifetimes := by
      rw [Ledger.hitLifetimes, hsame, hborn, Ledger.hitLifetimes]
    rw [if_pos hknown] at hobjs hmem
    refine ⟨(h.current.hit base size).congr hlive, h.known_hit hi hset, ?_, ?_⟩
    · rw [hobjs, h.objs, hlifetimes]
    · rw [hmem, h.mem, Ledger.firstHitBytes, Ledger.firstHitBytes, hlifetimes, hsame]
  | none =>
    -- this is its first access, so it is not in the set
    have hknown : ¬tracker.liveUnsafeObjs.contains base = true := by
      rw [h.known]
      rintro ⟨j, hj, hhit⟩
      rw [hi, Option.some.injEq] at hj
      subst hj
      simp [hfirst] at hhit
    rw [if_neg hknown] at hobjs hmem
    refine ⟨(h.current.hit base size).congr hlive, h.known_hit hi hset, ?_, ?_⟩
    · rw [hobjs, h.objs, Ledger.card_hitLifetimes_hit hi hlt hfirst, if_neg (by decide),
        Nat.mod_add_mod]
    · rw [hmem, h.mem, Ledger.firstHitBytes_hit hi hlt hfirst, if_pos rfl, Nat.mod_add_mod]

end Booked

/-- Every event that happens and is recorded is noted. -/
theorem Booked.step {s s' : State} {l : Ledger} {e : Event} (h : Booked s.Live s.tracker l)
    (hhappens : Happens s s' e) (hrecord : s'.tracker = s.tracker.record e) :
    Booked s'.Live s'.tracker (l.note e) := by
  have hset := HeapTracker.liveUnsafeObjs_record s.tracker e
  have hcounters := fun c ↦ HeapTracker.unsafeCounters_record s.tracker e (c := c)
  rw [← hrecord] at hset hcounters
  cases hhappens with
  | allocated hfresh hlive => exact h.start hfresh hlive hset hcounters
  | freed hbase hlive => exact h.finish hlive hset hcounters
  | @moved base newBase oldSize newSize hbase hfresh hlive =>
    -- the old lifetime ends before the new one starts
    have hfinished : Booked (fun b ↦ b ≠ base ∧ s.Live b) (s.tracker.removeUnsafe base)
        (l.finish base) := h.finish (fun _ ↦ Iff.rfl) rfl fun _ _ ↦ rfl
    exact hfinished.start (fun hb ↦ hfresh hb.2) hlive hset hcounters
  | resized _ hlive | accessed hlive | nothing hlive => exact h.congr hlive hset hcounters
  | @unsafeAccessed base size isLoad hbase hlive => exact h.hit isLoad hbase hlive hrecord

theorem booked_runCalls (calls : List Call) :
    Booked (runCalls calls).Live (runCalls calls).tracker (ledger (events calls)) := by
  refine run_events_induction (P := fun s es ↦ Booked s.Live s.tracker (ledger es)) .new ?_ calls
  intro s s' es e h _ _ hhappens hrecord
  rw [ledger, List.foldl_append, List.foldl_cons, List.foldl_nil]
  exact h.step hhappens hrecord

/-- The hits are the unsafe loads and the unsafe stores. -/
theorem hits_ledger (es : List Event) : (ledger es).hits
    = es.countP (Event.counted .unsafeLoad) + es.countP (Event.counted .unsafeStore) := by
  induction es using List.reverseRecOn with
  | nil => rfl
  | append_singleton es e ih =>
    rw [ledger, List.foldl_append, List.foldl_cons, List.foldl_nil, ← ledger, List.countP_append,
      List.countP_append, List.countP_singleton, List.countP_singleton]
    cases e with
    | unsafeAccessed base size isLoad =>
      have hhits : ((ledger es).note (.unsafeAccessed base size isLoad)).hits
          = (ledger es).hits + 1 := rfl
      cases isLoad <;> simp [hhits, ih, Event.counted] <;> omega
    | allocated | freed | moved | resized | accessed | nothing =>
      simpa [Ledger.note, Ledger.start, Ledger.finish, Event.counted] using ih

/-- The tracker counts what the ledger does, in the arithmetic of its counters, and exactly while
the figures fit. -/
structure Ledger.Reported (l : Ledger) (h : HeapTracker) : Prop where
  objs : h.counters .totalUnsafeObjs = l.hitLifetimes.card % 2 ^ 64
  objs_of_lt : l.hitLifetimes.card < 2 ^ 64 →
    h.counters .totalUnsafeObjs = l.hitLifetimes.card
  mem : h.counters .unsafeMem = l.firstHitBytes % 2 ^ 64
  mem_of_lt : l.firstHitBytes < 2 ^ 64 → h.counters .unsafeMem = l.firstHitBytes
  accesses : (h.counters .unsafeLoad + h.counters .unsafeStore) % 2 ^ 64 = l.hits % 2 ^ 64
  accesses_of_lt : l.hits < 2 ^ 64 →
    h.counters .unsafeLoad + h.counters .unsafeStore = l.hits

theorem Booked.reported {live : ℕ → Prop} {h : HeapTracker} {es : List Event}
    (hbooked : Booked live h (ledger es)) (htallied : Tallied h es) :
    (ledger es).Reported h := by
  have hload := htallied.counters .unsafeLoad (by decide)
  have hstore := htallied.counters .unsafeStore (by decide)
  have hhits := hits_ledger es
  constructor
  · exact hbooked.objs
  · exact fun hlt ↦ hbooked.objs.trans (Nat.mod_eq_of_lt hlt)
  · exact hbooked.mem
  · exact fun hlt ↦ hbooked.mem.trans (Nat.mod_eq_of_lt hlt)
  · rw [hload, hstore, hhits, ← Nat.add_mod]
  · intro hlt
    rw [hload, hstore, Nat.mod_eq_of_lt (by omega), Nat.mod_eq_of_lt (by omega), hhits]

/-- After every sequence of calls each lifetime that unsafe code has hit is counted once, with the
size of its block at the first hit, every access to a live block is counted, and the touched objects
are live objects. -/
theorem unsafe_objects_counted_once (calls : List Call) :
    (ledger (events calls)).Reported (runCalls calls).tracker ∧
      ∀ b, (runCalls calls).tracker.liveUnsafeObjs.contains b = true →
        (runCalls calls).tracker.liveObjs.contains b = true := by
  have hbooked := booked_runCalls calls
  refine ⟨hbooked.reported (tallied_runCalls calls), fun b hb ↦ ?_⟩
  obtain ⟨i, hi, -⟩ := (hbooked.known b).mp hb
  rw [← (exact_runCalls calls).live_iff, hbooked.current.live_iff, hi, Option.isSome_some]

end UnsafePerf.Heap
