import UnsafePerf.Concurrency.Commuting
import UnsafePerf.UnsafeCounter.Tracker
import Mathlib.Algebra.BigOperators.Group.Finset.Basic
import Mathlib.Data.Nat.ModEq

/-!
# The report as an aggregate of the events

Recording an event reads nothing: it inserts one bit and adds to counters. So the steps of different
threads commute, and what the tracker contains when all threads are done is determined by the
events, not by their order. The report is then a loop over the functions.

The reference is a list of events. `functionIds` are the identifiers recorded, as often as they
were recorded, and `Block.amount` is what a block adds to an instruction counter: a block without
unsafe instructions has none of any category.
-/

open Concurrency

namespace UnsafePerf.UnsafeCounter

/-! ## Events -/

/-- What the instrumented program records. -/
inductive Event where
  | function (funcId : UInt32)
  | block (b : Block)
  deriving DecidableEq

/-- The code of an event. -/
def Event.code : Event → Program Shared Unit
  | .function funcId => recordFunction funcId
  | .block b => recordBlock b

section System

variable {τ : Type}

/-- Any number of threads record events. -/
def recording : Service τ Event Shared Unit where
  code _ e _ := e.code
  allowed _ _ _ _ := true

/-- The start of the threads: the module constructor has installed the table. -/
def installed (table : MetadataTable) : Config τ Shared Unit :=
  .start ((initMetadata table).exec .new).2 ()

end System

/-- The identifiers recorded. -/
def functionIds (events : List Event) : List ℕ :=
  events.filterMap fun
    | .function funcId => some funcId.toNat
    | .block _ => none

/-- The blocks recorded. -/
def blocks (events : List Event) : List Block :=
  events.filterMap fun
    | .function _ => none
    | .block b => some b

/-- The number that a block gives for a counter. -/
def Block.field (b : Block) : InstCounter → ℕ
  | .totalInstructions => b.total.toNat
  | .totalUnsafeInstructions => b.unsafeTotal.toNat
  | .unsafeLoads => b.unsafeLoad.toNat
  | .unsafeStores => b.unsafeStore.toNat
  | .unsafeCalls => b.unsafeCall.toNat
  | .unsafeCasts => b.unsafeCastInst.toNat
  | .unsafeGeps => b.unsafeGep.toNat
  | .unsafeOthers => b.unsafeOther.toNat

/-- What a block adds to a counter. -/
def Block.amount (b : Block) (c : InstCounter) : ℕ :=
  if b.unsafeTotal = 0 ∧ c ≠ .totalInstructions then 0 else b.field c

/-- A block whose categories are zero when it has no unsafe instructions adds just what it says. -/
theorem Block.amount_eq_field {b : Block} (h : b.unsafeTotal = 0 → ∀ c, c ≠ .totalInstructions →
    b.field c = 0) (c : InstCounter) : b.amount c = b.field c := by
  rw [amount]
  split
  · next hzero => exact (h hzero.1 c hzero.2).symm
  · rfl

/-- The entry of a function has either flag set. -/
def MetadataTable.flagged (table : MetadataTable) (i : ℕ) : Bool :=
  table.entries[i]?.any FunctionMetadata.isUnsafe

/-! ## The updates commute -/

/-- One atomic step of an event. -/
inductive Update where
  | call (index : ℕ)
  | see (index : ℕ)
  | add (c : InstCounter) (d : UInt64)

/-- What the step does. -/
def Update.apply : Update → Shared → Shared
  | .call index => Shared.addCall index
  | .see index => Shared.setSeen index
  | .add c d => Shared.addInst c d

theorem update_add_comm {ι : Type} [DecidableEq ι] (f : ι → UInt64) (i j : ι) (d d' : UInt64) :
    Function.update (Function.update f j (f j + d')) i (Function.update f j (f j + d') i + d)
      = Function.update (Function.update f i (f i + d)) j (Function.update f i (f i + d) j + d') := by
  by_cases hij : i = j
  · subst hij
    simp only [Function.update_self, Function.update_idem]
    rw [UInt64.add_assoc, UInt64.add_comm d', ← UInt64.add_assoc]
  · rw [Function.update_of_ne hij, Function.update_of_ne (Ne.symm hij), Function.update_comm hij]

instance : LeftCommutative Update.apply where
  left_comm u v s := by
    cases u <;> cases v <;>
      simp only [Update.apply, Shared.addCall, Shared.setSeen, Shared.addInst, Shared.check,
        Bool.or_right_comm _ (decide _) (decide _)]
    case call.call i j => rw [update_add_comm]
    case see.see i j => rw [Bitset.insert_comm]
    case add.add c d c' d' => rw [update_add_comm]

/-- The updates of an event. -/
def Event.updates : Event → Multiset Update
  | .function funcId =>
    if funcId.toNat ≥ maxFunctions then 0 else {.call funcId.toNat} + {.see funcId.toNat}
  | .block b =>
    {.add .totalInstructions b.total.toUInt64} +
      if b.unsafeTotal = 0 then 0
      else {.add .totalUnsafeInstructions b.unsafeTotal.toUInt64} +
        (category .unsafeLoads b.unsafeLoad + (category .unsafeStores b.unsafeStore +
        (category .unsafeCalls b.unsafeCall + (category .unsafeCasts b.unsafeCastInst +
        (category .unsafeGeps b.unsafeGep + category .unsafeOthers b.unsafeOther)))))
where
  /-- The update of a category, if there is something to add. -/
  category (c : InstCounter) (d : UInt16) : Multiset Update :=
    if d > 0 then {.add c d.toUInt64} else 0

theorem applies_addCategory (c : InstCounter) (d : UInt16) :
    (addCategory c d).Applies Update.apply (Event.updates.category c d) := by
  rw [addCategory, Event.updates.category]
  split
  · exact Program.applies_rmw fun _ ↦ rfl
  · exact Program.applies_done ()

/-- The code of an event applies its updates. -/
theorem Event.code_applies (e : Event) : e.code.Applies Update.apply e.updates := by
  cases e with
  | function funcId =>
    rw [code, recordFunction, updates]
    split
    · exact Program.applies_done ()
    · exact (Program.applies_rmw fun _ ↦ rfl).bind fun _ ↦ Program.applies_rmw fun _ ↦ rfl
  | block b =>
    rw [code, recordBlock, updates]
    refine (Program.applies_rmw fun _ ↦ rfl).bind fun _ ↦ ?_
    split
    · exact Program.applies_done ()
    · exact (Program.applies_rmw fun _ ↦ rfl).bind fun _ ↦
        (applies_addCategory _ _).bind fun _ ↦ (applies_addCategory _ _).bind fun _ ↦
        (applies_addCategory _ _).bind fun _ ↦ (applies_addCategory _ _).bind fun _ ↦
        (applies_addCategory _ _).bind fun _ ↦ applies_addCategory _ _

/-! ## What the tracker contains -/

/-- The tracker after these events, with this table installed. -/
structure Tallied (table : MetadataTable) (events : List Event) (s : Shared) : Prop where
  metadata : ∀ i, s.metadata i = table.entries[i]?
  metadataCount : s.metadataCount = .ofNat table.entries.length
  initialized : s.metadataInitialized = true
  unwritten : s.statsWritten = false
  outputs : s.outputs = []
  calls : ∀ i < maxFunctions, (s.functionCalls i).toNat = (functionIds events).count i % 2 ^ 64
  seen : ∀ i < maxFunctions, Bitset.contains s.functionsSeen i = true ↔ i ∈ functionIds events
  instructions : ∀ c,
    (s.instructions c).toNat = ((blocks events).map (·.amount c)).sum % 2 ^ 64
  inRange : s.fault = false

namespace Shared

@[simp] theorem check_of_lt {s : Shared} {i n : ℕ} (h : i < n) : s.check i n = s := by
  have hle : decide (n ≤ i) = false := decide_eq_false (not_le.mpr h)
  rw [check, hle, Bool.or_false]

/-- Adding nothing changes nothing. -/
theorem addInst_zero (c : InstCounter) (s : Shared) : s.addInst c 0 = s := by
  rw [addInst, UInt64.add_zero, Function.update_eq_self]

theorem addInst_instructions (s : Shared) (c c' : InstCounter) (d : UInt64) :
    ((s.addInst c d).instructions c').toNat
      = ((s.instructions c').toNat + if c' = c then d.toNat else 0) % 2 ^ 64 := by
  change (Function.update s.instructions c (s.instructions c + d) c').toNat = _
  by_cases hc : c' = c
  · subst hc
    rw [Function.update_self, UInt64.toNat_add, if_pos rfl]
  · rw [Function.update_of_ne hc, if_neg hc, add_zero, Nat.mod_eq_of_lt (s.instructions c').toNat_lt]

/-- Several additions. -/
def addInsts (s : Shared) (amounts : List (InstCounter × UInt64)) : Shared :=
  amounts.foldl (fun s e ↦ s.addInst e.1 e.2) s

theorem addInsts_frame (s : Shared) (amounts : List (InstCounter × UInt64)) :
    s.addInsts amounts = { s with instructions := (s.addInsts amounts).instructions } := by
  induction amounts generalizing s with
  | nil => rfl
  | cons e amounts ih => exact ih (s.addInst e.1 e.2)

theorem addInsts_instructions (s : Shared) (amounts : List (InstCounter × UInt64))
    (c : InstCounter) :
    ((s.addInsts amounts).instructions c).toNat = ((s.instructions c).toNat
      + (amounts.map fun e ↦ if c = e.1 then e.2.toNat else 0).sum) % 2 ^ 64 := by
  induction amounts generalizing s with
  | nil => exact (Nat.mod_eq_of_lt (s.instructions c).toNat_lt).symm
  | cons e amounts ih =>
    change (((s.addInst e.1 e.2).addInsts amounts).instructions c).toNat = _
    rw [ih, addInst_instructions, Nat.mod_add_mod, List.map_cons, List.sum_cons, add_assoc]

end Shared

theorem addCategory_exec (c : InstCounter) (d : UInt16) (s : Shared) :
    ((addCategory c d).exec s).2 = s.addInst c d.toUInt64 := by
  rw [addCategory]
  by_cases hd : d > 0
  · rw [if_pos hd]
    rfl
  · obtain rfl : d = 0 := by
      rw [← UInt16.toNat_inj]
      have hle := UInt16.not_lt.mp hd
      exact Nat.le_zero.mp hle
    rw [if_neg hd]
    exact (s.addInst_zero c).symm

/-- What a block adds, counter by counter. -/
def Block.amounts (b : Block) : List (InstCounter × UInt64) :=
  if b.unsafeTotal = 0 then [(.totalInstructions, b.total.toUInt64)]
  else [(.totalInstructions, b.total.toUInt64), (.totalUnsafeInstructions, b.unsafeTotal.toUInt64),
    (.unsafeLoads, b.unsafeLoad.toUInt64), (.unsafeStores, b.unsafeStore.toUInt64),
    (.unsafeCalls, b.unsafeCall.toUInt64), (.unsafeCasts, b.unsafeCastInst.toUInt64),
    (.unsafeGeps, b.unsafeGep.toUInt64), (.unsafeOthers, b.unsafeOther.toUInt64)]

theorem Block.sum_amounts (b : Block) (c : InstCounter) :
    (b.amounts.map fun e ↦ if c = e.1 then e.2.toNat else 0).sum = b.amount c := by
  rw [amounts, amount]
  by_cases hzero : b.unsafeTotal = 0
  · rw [if_pos hzero]
    by_cases hc : c = .totalInstructions
    · simp [hc, field]
    · simp [hc, hzero]
  · rw [if_neg hzero, if_neg fun h ↦ hzero h.1]
    cases c <;> simp [field]

theorem recordBlock_exec (b : Block) (s : Shared) :
    ((recordBlock b).exec s).2 = s.addInsts b.amounts := by
  rw [Block.amounts]
  by_cases hzero : b.unsafeTotal = 0
  · simp [recordBlock, hzero, Shared.addInsts]
  · simp [recordBlock, hzero, addCategory_exec, Shared.addInsts]

theorem functionIds_cons (e : Event) (events : List Event) : functionIds (e :: events)
    = (match e with
      | .function funcId => [funcId.toNat]
      | .block _ => []) ++ functionIds events := by
  cases e <;> rfl

theorem blocks_cons (e : Event) (events : List Event) : blocks (e :: events)
    = (match e with
      | .function _ => []
      | .block b => [b]) ++ blocks events := by
  cases e <;> rfl

variable {table : MetadataTable} {events : List Event} {s : Shared}

/-- One more event. -/
theorem Tallied.event (h : Tallied table events s) (e : Event) :
    Tallied table (e :: events) (e.code.exec s).2 := by
  cases e with
  | block b =>
    change Tallied table (.block b :: events) ((recordBlock b).exec s).2
    rw [recordBlock_exec, s.addInsts_frame]
    refine ⟨h.metadata, h.metadataCount, h.initialized, h.unwritten, h.outputs, h.calls, h.seen,
      fun c ↦ ?_, h.inRange⟩
    change ((s.addInsts b.amounts).instructions c).toNat = _
    rw [Shared.addInsts_instructions, b.sum_amounts, h.instructions c, blocks_cons,
      List.singleton_append, List.map_cons, List.sum_cons, Nat.mod_add_mod, add_comm]
  | function funcId =>
    by_cases hlt : funcId.toNat < maxFunctions
    · have hword : Bitset.wordIdx funcId.toNat < bitsetWords := by
        rw [Bitset.wordIdx, bitsetWords]
        rw [maxFunctions] at hlt ⊢
        omega
      have hexec : ((recordFunction funcId).exec s).2 = { s with
          functionCalls :=
            Function.update s.functionCalls funcId.toNat (s.functionCalls funcId.toNat + 1)
          functionsSeen := Bitset.insert s.functionsSeen funcId.toNat } := by
        simp [recordFunction, not_le.mpr hlt, Shared.addCall, Shared.setSeen, hlt, hword]
      change Tallied table (.function funcId :: events) ((recordFunction funcId).exec s).2
      rw [hexec]
      refine ⟨h.metadata, h.metadataCount, h.initialized, h.unwritten, h.outputs, fun i hi ↦ ?_,
        fun i hi ↦ ?_, h.instructions, h.inRange⟩
      · rw [functionIds_cons, List.singleton_append]
        change (Function.update s.functionCalls funcId.toNat _ i).toNat = _
        by_cases hif : i = funcId.toNat
        · subst hif
          rw [Function.update_self, UInt64.toNat_add, h.calls _ hi, List.count_cons_self,
            UInt64.toNat_one, Nat.mod_add_mod]
        · rw [Function.update_of_ne hif, h.calls i hi, List.count_cons_of_ne (Ne.symm hif)]
      · rw [functionIds_cons, List.singleton_append, List.mem_cons, ← h.seen i hi]
        exact Bitset.contains_insert
    · -- an id past the table changes nothing, and the report asks for no such id
      have hexec : ((recordFunction funcId).exec s).2 = s := by
        simp [recordFunction, not_lt.mp hlt]
      change Tallied table (.function funcId :: events) ((recordFunction funcId).exec s).2
      rw [hexec]
      refine ⟨h.metadata, h.metadataCount, h.initialized, h.unwritten, h.outputs, fun i hi ↦ ?_,
        fun i hi ↦ ?_, h.instructions, h.inRange⟩
      · have hne : funcId.toNat ≠ i := by omega
        rw [h.calls i hi, functionIds_cons, List.singleton_append, List.count_cons_of_ne hne]
      · have hne : i ≠ funcId.toNat := by omega
        rw [h.seen i hi, functionIds_cons, List.singleton_append, List.mem_cons, or_iff_right hne]

theorem writeMetadata_exec {i : ℕ} {entries : List FunctionMetadata}
    (hle : i + entries.length ≤ maxFunctions) (s : Shared) :
    (writeMetadata i entries).exec s = ((), { s with
      metadata := fun j ↦ if i ≤ j ∧ j < i + entries.length then entries[j - i]? else s.metadata j }) := by
  induction entries generalizing i s with
  | nil =>
    have hmetadata : (fun j ↦ if i ≤ j ∧ j < i + 0 then ([] : List FunctionMetadata)[j - i]?
        else s.metadata j) = s.metadata := by
      funext j
      rw [if_neg (by omega)]
    simp only [List.length_nil, hmetadata]
    rfl
  | cons entry entries ih =>
    rw [List.length_cons] at hle
    have hlt : i < maxFunctions := by omega
    rw [writeMetadata, Program.exec_bind, Program.exec_store, ih (by omega)]
    refine congrArg (Prod.mk ()) ?_
    have hmetadata : (fun j ↦ if i + 1 ≤ j ∧ j < i + 1 + entries.length then entries[j - (i + 1)]?
        else Function.update s.metadata i (some entry) j)
        = fun j ↦ if i ≤ j ∧ j < i + (entry :: entries).length then (entry :: entries)[j - i]?
          else s.metadata j := by
      funext j
      rw [List.length_cons]
      rcases Nat.lt_trichotomy j i with hj | rfl | hj
      · rw [if_neg (by omega), if_neg (by omega), Function.update_of_ne (by omega)]
      · rw [if_neg (by omega), if_pos (by omega), Function.update_self, Nat.sub_self]
        rfl
      · have hsub : j - i = j - (i + 1) + 1 := by omega
        rw [Function.update_of_ne (by omega), hsub, List.getElem?_cons_succ]
        exact if_congr (by omega) rfl rfl
    simp only [Shared.check_of_lt hlt, hmetadata]

/-- An installed table is in place, and nothing has been counted. -/
theorem tallied_installed (hle : table.entries.length ≤ maxFunctions) :
    Tallied table [] ((initMetadata table).exec .new).2 := by
  have hexec : ((initMetadata table).exec .new).2 = { Shared.new with
      metadata := fun j ↦ table.entries[j]?
      metadataCount := .ofNat table.entries.length
      metadataInitialized := true } := by
    have hmetadata : (fun j ↦ if j < table.entries.length then table.entries[j]? else none)
        = fun j ↦ table.entries[j]? := by
      funext j
      by_cases hj : j < table.entries.length
      · rw [if_pos hj]
      · rw [if_neg hj, List.getElem?_eq_none (not_lt.mp hj)]
    simp [initMetadata, Shared.new, UnsafeTracker.new, not_lt.mpr hle,
      writeMetadata_exec (i := 0) ((Nat.zero_add _).trans_le hle), hmetadata]
  rw [hexec]
  refine ⟨fun _ ↦ rfl, rfl, rfl, rfl, rfl, fun _ _ ↦ rfl, fun i _ ↦ ?_, fun _ ↦ rfl, rfl⟩
  have hempty : Bitset.contains (fun _ ↦ 0) i = false := Bitset.contains_empty i
  exact (iff_of_false (by simp [Shared.new, UnsafeTracker.new, hempty]) List.not_mem_nil)

/-- The updates of the events leave the tallies of the events. -/
theorem tallied_events (hle : table.entries.length ≤ maxFunctions) (events : List Event) :
    Tallied table events
      ((events.map Event.updates).sum.foldr Update.apply ((initMetadata table).exec .new).2) := by
  induction events with
  | nil => exact tallied_installed hle
  | cons e events ih =>
    rw [List.map_cons, List.sum_cons, Multiset.foldr_add, ← e.code_applies.exec]
    exact ih.event e

/-- **Any interleaving** of the recording threads leaves the tallies of the events. -/
theorem tallied_run {τ : Type} [DecidableEq τ] [Fintype τ]
    (hle : table.entries.length ≤ maxFunctions) (ms : List (Move τ Event))
    (hidle : ∀ t, (recording.run (installed table) ms).Idle t ()) :
    Tallied table (recording.accepted (installed table) ms)
      (recording.run (installed table) ms).shared := by
  have hsettled := recording.run_settled (c := installed table) (fun _ e _ ↦ e.code_applies)
    (fun _ ↦ ⟨(), rfl⟩) fun t ↦ ⟨(), hidle t⟩
  rw [hsettled]
  exact tallied_events hle _

/-! ## The report -/

theorem loadInstructions_exec (cs : List InstCounter) (s : Shared) :
    (loadInstructions cs).exec s = (fun c ↦ if c ∈ cs then s.instructions c else 0, s) := by
  induction cs with
  | nil => rfl
  | cons c cs ih =>
    simp only [loadInstructions, Program.exec_bind, Program.exec_load, ih, Program.pure_eq,
      Program.exec_done]
    refine congrArg (Prod.mk · s) (funext fun c' ↦ ?_)
    by_cases hc : c' = c
    · subst hc
      rw [Function.update_self, if_pos List.mem_cons_self]
    · rw [Function.update_of_ne hc]
      exact if_congr (by rw [List.mem_cons, or_iff_right hc]) rfl rfl

theorem loadInstructions_exec_instCounters (s : Shared) :
    (loadInstructions instCounters).exec s = (s.instructions, s) := by
  rw [loadInstructions_exec]
  refine congrArg (Prod.mk · s) (funext fun c ↦ ?_)
  have hmem : c ∈ instCounters := by
    cases c <;> decide
  rw [if_pos hmem]

/-- The loop, with the tracker standing still. -/
def FunctionTotals.loop (totals : FunctionTotals) (seen flagged : ℕ → Bool) (calls : ℕ → UInt64)
    (is : List ℕ) : FunctionTotals :=
  is.foldl (fun totals i ↦ if seen i then totals.count (flagged i) (calls i) else totals) totals

theorem countFunctions_exec (hmetadata : ∀ i, s.metadata i = table.entries[i]?)
    (hle : table.entries.length ≤ maxFunctions) {is : List ℕ}
    (his : ∀ i ∈ is, i < table.entries.length) (totals : FunctionTotals) :
    (countFunctions is totals).exec s = (totals.loop (Bitset.contains s.functionsSeen)
      table.flagged s.functionCalls is, s) := by
  induction is generalizing totals with
  | nil => rfl
  | cons i is ih =>
    have hi : i < table.entries.length := his i List.mem_cons_self
    have hlt : i < maxFunctions := hi.trans_le hle
    have hword : Bitset.wordIdx i < bitsetWords := by
      rw [Bitset.wordIdx, bitsetWords]
      rw [maxFunctions] at hlt ⊢
      omega
    have hentry : s.metadata i = some (table.entries[i]) := by
      rw [hmetadata, List.getElem?_eq_getElem hi]
    have hflagged : table.flagged i = (table.entries[i]).isUnsafe := by
      rw [MetadataTable.flagged, List.getElem?_eq_getElem hi, Option.any_some]
    have hrest := ih fun j hj ↦ his j (List.mem_cons_of_mem _ hj)
    rw [countFunctions, FunctionTotals.loop, List.foldl_cons]
    by_cases hseen : Bitset.contains s.functionsSeen i = true
    · simp only [isSeen, loadMetadata, loadCalls, Program.exec_bind, Program.exec_rmw, hseen, hentry,
        if_true, Shared.check_of_lt hword, Shared.check_of_lt hlt, hflagged]
      exact hrest _
    · simp only [isSeen, Program.exec_bind, Program.exec_rmw, hseen, if_false,
        Shared.check_of_lt hword, Bool.false_eq_true]
      exact hrest totals

/-- The report of a tracker. -/
def CounterReport.of (n : ℕ) (table : MetadataTable) (s : Shared) : CounterReport where
  instructions := s.instructions
  functions := FunctionTotals.zero.loop (Bitset.contains s.functionsSeen) table.flagged
    s.functionCalls (List.range n)

/-- The destructor, running alone, writes the report. -/
theorem dumpStats_exec (h : Tallied table events s) (hpos : 1 ≤ table.entries.length)
    (hle : table.entries.length ≤ maxFunctions) :
    (dumpStats.exec s).2 = { s with
      statsWritten := true
      outputs := [(CounterReport.of table.entries.length table s).output] } := by
  have hcount : (UInt32.ofNat table.entries.length).toNat = table.entries.length :=
    UInt32.toNat_ofNat_of_lt' table.length_lt
  have hne : table.entries.length ≠ 0 := by omega
  have hloop : ∀ s' : Shared, s'.metadata = s.metadata →
      (countFunctions (List.range table.entries.length) .zero).exec s' = (FunctionTotals.zero.loop
        (Bitset.contains s'.functionsSeen) table.flagged s'.functionCalls
        (List.range table.entries.length), s') := fun s' hs' ↦
    countFunctions_exec (fun i ↦ by rw [hs', h.metadata]) hle (fun i hi ↦ List.mem_range.mp hi) .zero
  obtain ⟨⟨metadata, count, calls, seen, instructions, written, initialized⟩, outputs, fault⟩ := s
  obtain rfl : written = false := h.unwritten
  obtain rfl : initialized = true := h.initialized
  obtain rfl : outputs = [] := h.outputs
  obtain rfl : count = .ofNat table.entries.length := h.metadataCount
  simp [dumpStats, hcount, hne, loadInstructions_exec_instCounters, hloop, CounterReport.of]

/-- What one function adds. -/
theorem FunctionTotals.count_toNat (totals : FunctionTotals) (flagged : Bool) (calls : UInt64) :
    let r := totals.count flagged calls
    r.uniqueFunctions.toNat = (totals.uniqueFunctions.toNat + 1) % 2 ^ 32 ∧
    r.uniqueUnsafeFunctions.toNat
      = (totals.uniqueUnsafeFunctions.toNat + if flagged then 1 else 0) % 2 ^ 32 ∧
    r.totalFunctionCalls.toNat = (totals.totalFunctionCalls.toNat + calls.toNat) % 2 ^ 64 ∧
    r.unsafeFunctionCalls.toNat
      = (totals.unsafeFunctionCalls.toNat + if flagged then calls.toNat else 0) % 2 ^ 64 := by
  refine ⟨UInt32.toNat_add .., ?_, UInt64.toNat_add .., ?_⟩
  · rw [count, UInt32.toNat_add]
    cases flagged <;> rfl
  · rw [count, UInt64.toNat_add]
    cases flagged <;> rfl

/-- What the loop adds up. -/
theorem FunctionTotals.loop_toNat (totals : FunctionTotals) (seen flagged : ℕ → Bool)
    (calls : ℕ → UInt64) (is : List ℕ) :
    let r := totals.loop seen flagged calls is
    r.uniqueFunctions.toNat = (totals.uniqueFunctions.toNat + (is.filter seen).length) % 2 ^ 32 ∧
    r.uniqueUnsafeFunctions.toNat = (totals.uniqueUnsafeFunctions.toNat
      + (is.filter fun i ↦ seen i && flagged i).length) % 2 ^ 32 ∧
    r.totalFunctionCalls.toNat = (totals.totalFunctionCalls.toNat
      + ((is.filter seen).map fun i ↦ (calls i).toNat).sum) % 2 ^ 64 ∧
    r.unsafeFunctionCalls.toNat = (totals.unsafeFunctionCalls.toNat
      + ((is.filter fun i ↦ seen i && flagged i).map fun i ↦ (calls i).toNat).sum) % 2 ^ 64 := by
  induction is generalizing totals with
  | nil =>
    have h₁ := totals.uniqueFunctions.toNat_lt
    have h₂ := totals.uniqueUnsafeFunctions.toNat_lt
    have h₃ := totals.totalFunctionCalls.toNat_lt
    have h₄ := totals.unsafeFunctionCalls.toNat_lt
    exact ⟨(Nat.mod_eq_of_lt h₁).symm, (Nat.mod_eq_of_lt h₂).symm, (Nat.mod_eq_of_lt h₃).symm,
      (Nat.mod_eq_of_lt h₄).symm⟩
  | cons i is ih =>
    have hcons : totals.loop seen flagged calls (i :: is)
        = (if seen i then totals.count (flagged i) (calls i) else totals).loop seen flagged calls is :=
      rfl
    rw [hcons]
    cases hseen : seen i with
    | false => simpa [hseen] using ih totals
    | true =>
      obtain ⟨h₁, h₂, h₃, h₄⟩ := ih (totals.count (flagged i) (calls i))
      obtain ⟨hc₁, hc₂, hc₃, hc₄⟩ := totals.count_toNat (flagged i) (calls i)
      rw [hc₁] at h₁
      rw [hc₂] at h₂
      rw [hc₃] at h₃
      rw [hc₄] at h₄
      simp only [if_true]
      rw [h₁, h₂, h₃, h₄]
      cases hflagged : flagged i <;> simp [hseen, hflagged] <;> omega

/-- The figures that a report should have. Sums are 64-bit numbers, so they are exact up to a
multiple of `2 ^ 64`, and exact when they are smaller. -/
structure Reported (table : MetadataTable) (events : List Event) (r : CounterReport) : Prop where
  /-- The distinct identifiers in the table. -/
  unique : r.functions.uniqueFunctions.toNat
    = ((functionIds events).toFinset.filter (· < table.entries.length)).card
  /-- Those whose entry has either flag set. -/
  uniqueUnsafe : r.functions.uniqueUnsafeFunctions.toNat
    = ((functionIds events).toFinset.filter (table.flagged · = true)).card
  /-- The calls of functions in the table. -/
  calls : r.functions.totalFunctionCalls.toNat
    = (functionIds events).countP (· < table.entries.length) % 2 ^ 64
  /-- Those of functions whose entry has either flag set. -/
  callsUnsafe : r.functions.unsafeFunctionCalls.toNat
    = (functionIds events).countP (table.flagged · = true) % 2 ^ 64
  /-- The instructions, in all and by category. -/
  instructions : ∀ c,
    (r.instructions c).toNat = ((blocks events).map (·.amount c)).sum % 2 ^ 64

/-- A sum over the identifiers that pass a test counts the records of these identifiers. -/
theorem sum_calls {ids : List ℕ} {calls : ℕ → UInt64} {p : ℕ → Prop} [DecidablePred p]
    (hcalls : ∀ i, p i → (calls i).toNat = ids.count i % 2 ^ 64) {l : List ℕ} (hnodup : l.Nodup)
    (hl : l.toFinset = ids.toFinset.filter p) :
    (l.map fun i ↦ (calls i).toNat).sum % 2 ^ 64 = ids.countP p % 2 ^ 64 := by
  rw [← List.sum_toFinset _ hnodup, hl, ← Finset.sum_filter_count_eq_countP, Finset.sum_nat_mod,
    Finset.sum_nat_mod _ _ fun i ↦ ids.count i]
  refine congrArg (· % 2 ^ 64) (Finset.sum_congr rfl fun i hi ↦ ?_)
  rw [hcalls i (Finset.mem_filter.mp hi).2, Nat.mod_mod]

theorem MetadataTable.lt_of_flagged {i : ℕ} (h : table.flagged i = true) :
    i < table.entries.length := by
  rw [flagged, Option.any_eq_true] at h
  obtain ⟨entry, hentry, -⟩ := h
  exact (List.getElem?_eq_some_iff.mp hentry).1

/-- The report of a tracker is the one the events call for. -/
theorem Tallied.reported (h : Tallied table events s)
    (hle : table.entries.length ≤ maxFunctions) :
    Reported table events (CounterReport.of table.entries.length table s) := by
  obtain ⟨hunique, huniqueUnsafe, hcalls, hcallsUnsafe⟩ :=
    FunctionTotals.zero.loop_toNat (Bitset.contains s.functionsSeen) table.flagged s.functionCalls
      (List.range table.entries.length)
  have hnodup := List.nodup_range (n := table.entries.length)
  -- the ids at which the loop counts are those of the events
  have hids : ((List.range table.entries.length).filter (Bitset.contains s.functionsSeen)).toFinset
      = (functionIds events).toFinset.filter (· < table.entries.length) := by
    ext i
    rw [List.mem_toFinset, List.mem_filter, List.mem_range, Finset.mem_filter, List.mem_toFinset,
      and_comm]
    exact and_congr_left fun hi ↦ h.seen i (hi.trans_le hle)
  have hflagged : ((List.range table.entries.length).filter fun i ↦
      Bitset.contains s.functionsSeen i && table.flagged i).toFinset
      = (functionIds events).toFinset.filter (table.flagged · = true) := by
    ext i
    rw [List.mem_toFinset, List.mem_filter, List.mem_range, Finset.mem_filter, List.mem_toFinset,
      Bool.and_eq_true]
    constructor
    · rintro ⟨hi, hseen, hflag⟩
      exact ⟨(h.seen i (hi.trans_le hle)).mp hseen, hflag⟩
    · rintro ⟨hmem, hflag⟩
      have hi := table.lt_of_flagged hflag
      exact ⟨hi, (h.seen i (hi.trans_le hle)).mpr hmem, hflag⟩
  -- there are fewer ids than a 32-bit count can hold
  have hsmall : ∀ p : ℕ → Bool,
      ((List.range table.entries.length).filter p).length < 2 ^ 32 := fun p ↦
    ((List.length_filter_le ..).trans_eq List.length_range).trans_lt table.length_lt
  have hzero : FunctionTotals.zero.uniqueFunctions.toNat = 0
      ∧ FunctionTotals.zero.uniqueUnsafeFunctions.toNat = 0
      ∧ FunctionTotals.zero.totalFunctionCalls.toNat = 0
      ∧ FunctionTotals.zero.unsafeFunctionCalls.toNat = 0 := ⟨rfl, rfl, rfl, rfl⟩
  rw [hzero.1, zero_add, Nat.mod_eq_of_lt (hsmall _),
    ← List.toFinset_card_of_nodup (hnodup.filter _), hids] at hunique
  rw [hzero.2.1, zero_add, Nat.mod_eq_of_lt (hsmall _),
    ← List.toFinset_card_of_nodup (hnodup.filter _), hflagged] at huniqueUnsafe
  rw [hzero.2.2.1, zero_add, sum_calls (fun i hi ↦ h.calls i (hi.trans_le hle))
    (hnodup.filter _) hids] at hcalls
  rw [hzero.2.2.2, zero_add, sum_calls
    (fun i hi ↦ h.calls i ((table.lt_of_flagged hi).trans_le hle)) (hnodup.filter _) hflagged]
    at hcallsUnsafe
  exact ⟨hunique, huniqueUnsafe, hcalls, hcallsUnsafe, h.instructions⟩

/-! ## Whole runs -/

/-- A fault stays on record. -/
theorem fault_of_foldr {m : Multiset Update} (h : (m.foldr Update.apply s).fault = false) :
    s.fault = false := by
  induction m using Multiset.induction with
  | empty => exact h
  | cons u m ih =>
    rw [Multiset.foldr_cons] at h
    refine ih ?_
    cases u with
    | add c d => exact h
    | call index => exact (Bool.or_eq_false_iff.mp h).1
    | see index => exact (Bool.or_eq_false_iff.mp h).1

section Runs

variable {τ : Type} [DecidableEq τ] [Fintype τ]

/-- No access of a recording thread is out of range. -/
theorem fault_run (hle : table.entries.length ≤ maxFunctions) (ms : List (Move τ Event)) :
    (recording.run (installed table) ms).shared.fault = false := by
  have hstart : ∀ t : τ, ((installed table).thread t).Applies Update.apply 0 :=
    fun _ ↦ Program.applies_done ()
  obtain ⟨pending, -, hsum⟩ := recording.run_applies (fun _ e _ ↦ e.code_applies) ms hstart
  rw [Finset.sum_const_zero, zero_add] at hsum
  have hend := (tallied_events hle (recording.accepted (installed table) ms)).inRange
  exact fault_of_foldr (hsum ▸ hend)

/-- **The report is an aggregate of the events.** For every table that is installed, and however the
steps of the recording threads interleave, no access is ever out of range, and the report written
when all threads are done has the figures that the events call for. -/
theorem report_aggregate (table : MetadataTable) (hpos : 1 ≤ table.entries.length)
    (hle : table.entries.length ≤ 65536) (ms : List (Move τ Event))
    (hidle : ∀ t, (recording.run (installed table) ms).Idle t ()) :
    let s := (recording.run (installed table) ms).shared
    (∀ pre, pre <+: ms → (recording.run (installed table) pre).shared.fault = false) ∧
    (dumpStats.exec s).2.fault = false ∧
    ∃ r : CounterReport, (dumpStats.exec s).2.outputs = [r.output] ∧
      Reported table (recording.accepted (installed table) ms) r := by
  intro s
  have htallied : Tallied table (recording.accepted (installed table) ms) s :=
    tallied_run hle ms hidle
  rw [dumpStats_exec htallied hpos hle]
  exact ⟨fun pre _ ↦ fault_run hle pre, htallied.inRange, _, rfl, htallied.reported hle⟩

end Runs

/-- A safe and an unsafe function. -/
def twoFunctions : MetadataTable := ⟨[⟨0, 0, 0⟩, ⟨1, 0, 1⟩], by decide⟩

/-- Two threads record both functions, one that is not in the table, one that cannot be tracked at
all, and two blocks. -/
def twoRecorders : List (Move Bool Event) :=
  [.call false (.function 1), .call true (.function 1), .step true, .step false, .step false,
    .step true, .call true (.function 70000), .call true (.function 2), .step true,
    .call false (.block ⟨7, 3, 2, 1, 0, 0, 0, 0⟩), .step false, .step true, .step false, .step false,
    .step false, .call true (.block ⟨4, 0, 0, 0, 0, 0, 0, 0⟩), .step true,
    .call true (.function 0), .step true, .step true]

theorem report_aggregate_twoRecorders :
    let s := (recording.run (installed twoFunctions) twoRecorders).shared
    (∀ pre, pre <+: twoRecorders →
      (recording.run (installed twoFunctions) pre).shared.fault = false) ∧
    (dumpStats.exec s).2.fault = false ∧
    ∃ r : CounterReport, (dumpStats.exec s).2.outputs = [r.output] ∧
      Reported twoFunctions (recording.accepted (installed twoFunctions) twoRecorders) r := by
  have hidle : ∀ t, ((recording.run (installed twoFunctions) twoRecorders).thread t).returned
      = some () := by decide +kernel
  exact report_aggregate twoFunctions (by decide) (by decide) twoRecorders
    fun t ↦ Program.returned_eq_some.mp (hidle t)

end UnsafePerf.UnsafeCounter
