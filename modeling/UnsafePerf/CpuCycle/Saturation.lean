import UnsafePerf.CpuCycle.System

/-!
# External calls and the context stack

A call pushes a context and its return pops one, but a push is refused when the stack is full, and
the hooks discard the error: nothing tells the return of a refused call from any other, and it pops
the context of a call that is still open.

`OpenCalls` records which calls are open, which of them were pushed, and which call pushed the
context at each height. As long as the nesting fits into the stack, the open calls and the contexts
above the first ones correspond one to one (`Stacked`). After the first refused push the next return
leaves the innermost pushed call without its context.
-/

open Concurrency

namespace UnsafePerf.CpuCycle

/-! ## Open calls -/

/-- The external calls of a sequence of hooks. -/
structure OpenCalls where
  /-- The number of calls made. -/
  made : ℕ
  /-- The open calls, the innermost first, and whether they were pushed. -/
  opened : List (ℕ × Bool)
  /-- The call that last pushed the context at a height. -/
  owner : ℕ → Option ℕ

namespace OpenCalls

/-- Before the sequence. -/
def new : OpenCalls := ⟨0, [], fun _ ↦ none⟩

/-- After a hook that has changed the depth of the stack from `depth` to `depth'`. -/
def note (c : OpenCalls) (depth depth' : ℕ) : Hook → OpenCalls
  | .callStart =>
    let pushed : Bool := depth' = depth + 1
    { made := c.made + 1
      opened := (c.made, pushed) :: c.opened
      owner := if pushed then Function.update c.owner depth (some c.made) else c.owner }
  | .callEnd => { c with opened := c.opened.tail }
  | .startMeasurement | .endMeasurement => c

/-- The innermost open call that was pushed. -/
def innermost (c : OpenCalls) : Option ℕ := (c.opened.find? (·.2)).map Prod.fst

end OpenCalls

/-- The top context belongs to the innermost open call that was pushed, and to no call of the
sequence when none of the open calls was. -/
def TopBelongs (p : ThreadLocals × OpenCalls) : Prop :=
  p.2.owner (p.1.stackDepth - 1) = p.2.innermost

/-- The depth and the states of the contexts are those of before. -/
def Restored (l l' : ThreadLocals) : Prop :=
  l'.stackDepth = l.stackDepth ∧ ∀ i : Fin maxContextDepth, i.val < l.stackDepth →
    (l'.contextStack i).state = (l.contextStack i).state

/-- The hooks close `n` open calls and otherwise bracket, and every region hook is inside a call. -/
def Balanced : ℕ → List (Hook × Inputs) → Prop
  | n, [] => n = 0
  | n, (.callStart, _) :: hooks => Balanced (n + 1) hooks
  | n, (.callEnd, _) :: hooks => 0 < n ∧ Balanced (n - 1) hooks
  | n, (.startMeasurement, _) :: hooks | n, (.endMeasurement, _) :: hooks =>
    0 < n ∧ Balanced n hooks

/-- The number of open calls after a hook. -/
def Hook.nest (n : ℕ) : Hook → ℕ
  | .callStart => n + 1
  | .callEnd => n - 1
  | .startMeasurement | .endMeasurement => n

/-- The number of open calls after a sequence of hooks. -/
def nesting (n : ℕ) (hooks : List (Hook × Inputs)) : ℕ := hooks.foldl (fun n e ↦ e.1.nest n) n

section Code

variable {τ : Type} [DecidableEq τ]

/-- The code of a sequence of hooks, with the record of its calls. -/
def observeHooks (t : τ) :
    List (Hook × Inputs) → ThreadLocals × OpenCalls → Program (Shared τ) (ThreadLocals × OpenCalls)
  | [], p => return p
  | (h, inp) :: hooks, (l, c) => do
    let (_, l') ← (h.code t inp).run l
    observeHooks t hooks (l', c.note l.stackDepth l'.stackDepth h)

end Code

/-! ## What the hooks do to the stack -/

/-- The effect of a hook on the locals and on the record. -/
def advance (p : ThreadLocals × OpenCalls) (e : Hook × Inputs) : ThreadLocals × OpenCalls :=
  let l' := (e.1.effect e.2 (p.1, .new)).1
  (l', p.2.note p.1.stackDepth l'.stackDepth e.1)

section Returns

variable {τ : Type} [DecidableEq τ] {t : τ} {k : ℕ} {l : ThreadLocals}

theorem observeHooks_returns (hooks : List (Hook × Inputs)) (c : OpenCalls)
    (hslot : l.threadSlot = some k) (hpos : 0 < l.stackDepth) :
    (observeHooks t hooks (l, c)).Returns (· = hooks.foldl advance (l, c)) := by
  induction hooks generalizing l c with
  | nil => rfl
  | cons e hooks ih =>
    obtain ⟨h, inp⟩ := e
    refine (hook_returns h hslot hpos).bind ?_
    rintro _ rfl
    exact ih _ (h.effect_threadSlot.trans hslot) (h.effect_depth_pos hpos)

end Returns

/-! ## While the nesting fits -/

/-- The contexts from height `d` on were pushed by the calls of the list, the last at `d`. -/
def Owns (owner : ℕ → Option ℕ) (d : ℕ) : List (ℕ × Bool) → Prop
  | [] => True
  | (n, pushed) :: calls =>
    pushed = true ∧ owner (d + calls.length) = some n ∧ Owns owner d calls

theorem Owns.congr {owner owner' : ℕ → Option ℕ} {d : ℕ} {calls : List (ℕ × Bool)}
    (h : Owns owner d calls) (hsame : ∀ i < d + calls.length, owner' i = owner i) :
    Owns owner' d calls := by
  induction calls with
  | nil => trivial
  | cons call calls ih =>
    obtain ⟨hpushed, hown, hrest⟩ := h
    have hlength : (call :: calls).length = calls.length + 1 := rfl
    exact ⟨hpushed, (hsame _ (by omega)).trans hown, ih hrest fun i hi ↦ hsame i (by omega)⟩

/-- Every open call has a context, above those of before, and these are as before. -/
structure Stacked (l₀ : ThreadLocals) (p : ThreadLocals × OpenCalls) : Prop where
  depth : p.1.stackDepth = l₀.stackDepth + p.2.opened.length
  owns : Owns p.2.owner l₀.stackDepth p.2.opened
  below : ∀ i < l₀.stackDepth, p.2.owner i = none
  made : ∀ i n, p.2.owner i = some n → n < p.2.made
  inj : ∀ i j n, p.2.owner i = some n → p.2.owner j = some n → i = j
  state : ∀ i : Fin maxContextDepth, i.val < l₀.stackDepth →
    (p.1.contextStack i).state = (l₀.contextStack i).state

namespace Stacked

variable {l₀ l : ThreadLocals} {c : OpenCalls} {inp : Inputs}

theorem new (l₀ : ThreadLocals) : Stacked l₀ (l₀, .new) where
  depth := rfl
  owns := trivial
  below _ _ := rfl
  made _ _ h := nomatch h
  inj _ _ _ h := nomatch h
  state _ _ := rfl

theorem topBelongs (h : Stacked l₀ (l, c)) (hpos : 0 < l₀.stackDepth) : TopBelongs (l, c) := by
  have hdepth : l.stackDepth = l₀.stackDepth + c.opened.length := h.depth
  have howns : Owns c.owner l₀.stackDepth c.opened := h.owns
  rw [TopBelongs, OpenCalls.innermost]
  rcases hopened : c.opened with _ | ⟨⟨n, pushed⟩, calls⟩
  · rw [hopened] at hdepth
    refine h.below _ ?_
    change l.stackDepth - 1 < l₀.stackDepth
    rw [hdepth, List.length_nil]
    omega
  · rw [hopened] at hdepth howns
    obtain ⟨rfl, hown, -⟩ := howns
    have htop : l.stackDepth - 1 = l₀.stackDepth + calls.length := by
      rw [hdepth, List.length_cons]
      omega
    rw [htop]
    exact hown

/-- A region hook inside a call changes only the context of the call. -/
theorem setTop (h : Stacked l₀ (l, c)) (hopen : 0 < c.opened.length) (hpos : 0 < l.stackDepth)
    (f : ContextFrame) : Stacked l₀ (l.setTop hpos f, c) where
  depth := h.depth
  owns := h.owns
  below := h.below
  made := h.made
  inj := h.inj
  state i hi := by
    have hdepth : l.stackDepth = l₀.stackDepth + c.opened.length := h.depth
    have hne : i ≠ l.topIndex hpos := by
      rintro rfl
      have htop : (l.topIndex hpos).val = l.stackDepth - 1 := rfl
      omega
    rw [← h.state i hi]
    exact congrArg ContextFrame.state (Function.update_of_ne hne ..)

theorem startMeasurement (h : Stacked l₀ (l, c)) (hopen : 0 < c.opened.length)
    (hpos : 0 < l.stackDepth) : Stacked l₀ (advance (l, c) (.startMeasurement, inp)) := by
  rw [advance, Hook.effect, dif_pos hpos]
  exact h.setTop hopen hpos _

theorem endMeasurement (h : Stacked l₀ (l, c)) (hopen : 0 < c.opened.length)
    (hpos : 0 < l.stackDepth) : Stacked l₀ (advance (l, c) (.endMeasurement, inp)) := by
  rw [advance, Hook.effect, dif_pos hpos]
  exact h.setTop hopen hpos _

theorem callStart (h : Stacked l₀ (l, c)) (hlt : l.stackDepth < maxContextDepth) :
    Stacked l₀ (advance (l, c) (.callStart, inp)) := by
  have hdepth : l.stackDepth = l₀.stackDepth + c.opened.length := h.depth
  have hadvance : advance (l, c) (.callStart, inp)
      = (l.push hlt ⟨l.currentState.callExternal, inp.tsc⟩,
        ⟨c.made + 1, (c.made, true) :: c.opened,
          Function.update c.owner l.stackDepth (some c.made)⟩) := by
    simp [advance, Hook.effect, dif_pos hlt, OpenCalls.note, ThreadLocals.push]
  rw [hadvance]
  constructor
  · change l.stackDepth + 1 = l₀.stackDepth + (c.opened.length + 1)
    omega
  · refine ⟨rfl, ?_, h.owns.congr fun i hi ↦ ?_⟩
    · rw [← hdepth]
      exact Function.update_self ..
    · have hlow : i < l.stackDepth := hdepth ▸ hi
      exact Function.update_of_ne (by omega) ..
  · intro i hi
    exact (Function.update_of_ne (by omega) ..).trans (h.below i hi)
  · intro i n hi
    have hmade := h.made i n
    change Function.update c.owner l.stackDepth (some c.made) i = some n at hi
    change n < c.made + 1
    rw [Function.update_apply] at hi
    grind
  · intro i j n hi hj
    have hmade := h.made
    have hinj := h.inj i j n
    change Function.update c.owner l.stackDepth (some c.made) i = some n at hi
    change Function.update c.owner l.stackDepth (some c.made) j = some n at hj
    rw [Function.update_apply] at hi hj
    grind
  · intro i hi
    have hne : i ≠ ⟨l.stackDepth, hlt⟩ := by
      rintro rfl
      have hlow : l.stackDepth < l₀.stackDepth := hi
      omega
    rw [← h.state i hi]
    exact congrArg ContextFrame.state (Function.update_of_ne hne ..)

theorem callEnd (h : Stacked l₀ (l, c)) (hopen : 0 < c.opened.length)
    (hpos : 0 < l₀.stackDepth) : Stacked l₀ (advance (l, c) (.callEnd, inp)) := by
  have hdepth : l.stackDepth = l₀.stackDepth + c.opened.length := h.depth
  have hgt : 1 < l.stackDepth := by omega
  rw [advance, Hook.effect, dif_pos hgt]
  constructor
  · change l.stackDepth - 1 = l₀.stackDepth + c.opened.tail.length
    rw [List.length_tail]
    omega
  · have howns : Owns c.owner l₀.stackDepth c.opened := h.owns
    change Owns c.owner l₀.stackDepth c.opened.tail
    rcases hopened : c.opened with _ | ⟨call, calls⟩
    · trivial
    · rw [hopened] at howns
      exact howns.2.2
  · exact h.below
  · exact h.made
  · exact h.inj
  · intro i hi
    rw [← h.state i hi]
    change ((l.resume hgt inp.tsc).contextStack i).state = (l.contextStack i).state
    simp only [ThreadLocals.resume, ThreadLocals.setTop, Function.update_apply]
    split
    · next heq =>
      rw [heq]
      rfl
    · rfl

end Stacked

/-! ## After a refused push -/

/-- The innermost open call was not pushed, and the context of the innermost one that was is on top
of a full stack. -/
structure Refused (m : ℕ) (p : ThreadLocals × OpenCalls) : Prop where
  full : p.1.stackDepth = maxContextDepth
  head : ∃ n calls, p.2.opened = (n, false) :: calls
  innermost : p.2.innermost = some m
  /-- The context below does not belong to that call. -/
  second : p.2.owner (maxContextDepth - 2) ≠ some m

namespace Refused

variable {m : ℕ} {l : ThreadLocals} {c : OpenCalls} {inp : Inputs}

theorem setTop (h : Refused m (l, c)) (hpos : 0 < l.stackDepth) (f : ContextFrame) :
    Refused m (l.setTop hpos f, c) := ⟨h.full, h.head, h.innermost, h.second⟩

theorem callStart (h : Refused m (l, c)) : Refused m (advance (l, c) (.callStart, inp)) := by
  have hfull : l.stackDepth = maxContextDepth := h.full
  have hadvance : advance (l, c) (.callStart, inp)
      = (l, ⟨c.made + 1, (c.made, false) :: c.opened, c.owner⟩) := by
    simp [advance, Hook.effect, hfull, OpenCalls.note]
  rw [hadvance]
  exact ⟨hfull, ⟨_, _, rfl⟩, h.innermost, h.second⟩

/-- The return of the refused call pops the context of a call that is still open. -/
theorem callEnd (h : Refused m (l, c)) : ¬TopBelongs (advance (l, c) (.callEnd, inp)) := by
  have hfull : l.stackDepth = maxContextDepth := h.full
  have hgt : 1 < l.stackDepth := by
    rw [hfull]
    decide
  obtain ⟨n, calls, hopened⟩ := h.head
  have hinnermost : (c.opened.find? (·.2)).map Prod.fst = some m := h.innermost
  rw [advance, Hook.effect, dif_pos hgt, TopBelongs]
  change c.owner (l.stackDepth - 1 - 1) ≠ (c.opened.tail.find? (·.2)).map Prod.fst
  rw [hopened] at hinnermost ⊢
  rw [List.tail_cons, hfull]
  intro hown
  exact h.second (hown.trans hinnermost)

/-- Sooner or later a call returns. -/
theorem exists_not_topBelongs {p : ThreadLocals × OpenCalls} {hooks : List (Hook × Inputs)}
    (h : Refused m p) (hbalanced : Balanced p.2.opened.length hooks) :
    ∃ pre, pre <+: hooks ∧ ¬TopBelongs (pre.foldl advance p) := by
  induction hooks generalizing p with
  | nil =>
    obtain ⟨n, calls, hopened⟩ := h.head
    have hzero : p.2.opened.length = 0 := hbalanced
    rw [hopened] at hzero
    exact absurd hzero (by simp)
  | cons e hooks ih =>
    obtain ⟨l, c⟩ := p
    obtain ⟨hook, inp⟩ := e
    have hpos : 0 < l.stackDepth := by
      rw [show l.stackDepth = maxContextDepth from h.full]
      decide
    have hrest : ∀ p', advance (l, c) (hook, inp) = p' → Refused m p' →
        Balanced p'.2.opened.length hooks →
        ∃ pre, pre <+: (hook, inp) :: hooks ∧ ¬TopBelongs (pre.foldl advance (l, c)) := by
      rintro p' rfl h' hbalanced'
      obtain ⟨pre, hpre, hnot⟩ := ih h' hbalanced'
      exact ⟨(hook, inp) :: pre, (List.prefix_cons_inj _).mpr hpre, hnot⟩
    cases hook with
    | startMeasurement =>
      refine hrest _ ?_ (h.setTop hpos ⟨l.currentState.enterUnsafe, inp.tsc⟩) hbalanced.2
      rw [advance, Hook.effect, dif_pos hpos]
      rfl
    | endMeasurement =>
      refine hrest _ ?_ (h.setTop hpos ⟨l.currentState.leaveUnsafe, inp.tsc⟩) hbalanced.2
      rw [advance, Hook.effect, dif_pos hpos]
      rfl
    | callStart => exact hrest _ rfl h.callStart hbalanced
    | callEnd => exact ⟨[(.callEnd, inp)], ⟨hooks, rfl⟩, h.callEnd⟩

end Refused

/-- The stack is not full after a return. -/
theorem depth_callEnd_lt (p : ThreadLocals × OpenCalls) (inp : Inputs) :
    (advance p (.callEnd, inp)).1.stackDepth < maxContextDepth := by
  have hle := p.1.depth_le
  have hcap : 1 < maxContextDepth := by decide
  rw [advance, Hook.effect]
  split
  · next hgt =>
    change p.1.stackDepth - 1 < maxContextDepth
    omega
  · next hle' =>
    change p.1.stackDepth < maxContextDepth
    omega

/-- A sequence that brackets ends with a return. -/
theorem Balanced.ends {n : ℕ} {hooks : List (Hook × Inputs)} (h : Balanced n hooks)
    (hne : hooks ≠ []) : ∃ pre inp, hooks = pre ++ [(.callEnd, inp)] := by
  induction hooks generalizing n with
  | nil => exact absurd rfl hne
  | cons e hooks ih =>
    obtain ⟨hook, inp⟩ := e
    have hcons : ∀ m, Balanced m hooks → hooks ≠ [] →
        ∃ pre inp', (hook, inp) :: hooks = pre ++ [(.callEnd, inp')] := by
      intro m hbalanced hne'
      obtain ⟨pre, inp', hpre⟩ := ih hbalanced hne'
      exact ⟨(hook, inp) :: pre, inp', by rw [hpre, List.cons_append]⟩
    by_cases hlast : hooks = []
    · subst hlast
      cases hook with
      | startMeasurement => exact absurd h.2 (Nat.ne_of_gt h.1)
      | endMeasurement => exact absurd h.2 (Nat.ne_of_gt h.1)
      | callStart => exact absurd h (Nat.succ_ne_zero n)
      | callEnd => exact ⟨[], inp, rfl⟩
    · cases hook with
      | startMeasurement => exact hcons n h.2 hlast
      | endMeasurement => exact hcons n h.2 hlast
      | callStart => exact hcons (n + 1) h hlast
      | callEnd => exact hcons (n - 1) h.2 hlast

/-! ## Balanced sequences -/

theorem forall_prefix_cons {α : Type} {P : List α → Prop} {a : α} {l : List α} :
    (∀ pre, pre <+: a :: l → P pre) ↔ P [] ∧ ∀ pre, pre <+: l → P (a :: pre) := by
  constructor
  · intro h
    exact ⟨h [] List.nil_prefix, fun pre hpre ↦ h _ ((List.prefix_cons_inj a).mpr hpre)⟩
  · rintro ⟨hnil, hcons⟩ pre hpre
    rcases List.prefix_cons_iff.mp hpre with rfl | ⟨pre', rfl, hpre'⟩
    · exact hnil
    · exact hcons pre' hpre'

/-- A refused push is noticed: at the first return after it, or in the depth at the end. -/
theorem Stacked.refused {l₀ l : ThreadLocals} {c : OpenCalls} {inp : Inputs}
    {hooks : List (Hook × Inputs)} (h : Stacked l₀ (l, c)) (hpos : 0 < l₀.stackDepth)
    (hfull : l.stackDepth = maxContextDepth) (hbalanced : Balanced (c.opened.length + 1) hooks) :
    ¬(Restored l₀ (hooks.foldl advance (advance (l, c) (.callStart, inp))).1 ∧
      ∀ pre, pre <+: hooks →
        TopBelongs (pre.foldl advance (advance (l, c) (.callStart, inp)))) := by
  have hadvance : advance (l, c) (.callStart, inp)
      = (l, ⟨c.made + 1, (c.made, false) :: c.opened, c.owner⟩) := by
    simp [advance, Hook.effect, hfull, OpenCalls.note]
  have hdepth : l.stackDepth = l₀.stackDepth + c.opened.length := h.depth
  rintro ⟨hrestored, htop⟩
  rcases hopened : c.opened with _ | ⟨⟨m, pushed⟩, calls⟩
  · -- no call of the sequence is on the stack: the returns pop contexts of before
    have hne : hooks ≠ [] := by
      rintro rfl
      exact absurd hbalanced (Nat.succ_ne_zero _)
    obtain ⟨pre, inp', rfl⟩ := hbalanced.ends hne
    have hlt := depth_callEnd_lt (pre.foldl advance (advance (l, c) (.callStart, inp))) inp'
    rw [List.foldl_append] at hrestored
    have hlast : (advance (pre.foldl advance (advance (l, c) (.callStart, inp)))
      (.callEnd, inp')).1.stackDepth = l₀.stackDepth := hrestored.1
    rw [hopened, List.length_nil] at hdepth
    omega
  · -- the refused call is innermost, but the top context stays that of the call below it
    have howns : Owns c.owner l₀.stackDepth c.opened := h.owns
    have htopBelongs := h.topBelongs hpos
    rw [hopened] at howns hdepth
    obtain ⟨rfl, hown, -⟩ := howns
    have hinnermost : c.innermost = some m := by
      rw [OpenCalls.innermost, hopened]
      rfl
    have hcap : maxContextDepth = l₀.stackDepth + (calls.length + 1) := hfull.symm.trans hdepth
    have hrefused : Refused m (advance (l, c) (.callStart, inp)) := by
      rw [hadvance]
      refine ⟨hfull, ⟨_, _, rfl⟩, hinnermost, fun hsecond ↦ ?_⟩
      have := h.inj _ _ m hown hsecond
      omega
    have hlength : (advance (l, c) (.callStart, inp)).2.opened.length = c.opened.length + 1 := by
      rw [hadvance]
      rfl
    obtain ⟨pre, hpre, hnot⟩ := hrefused.exists_not_topBelongs (hlength.symm ▸ hbalanced)
    exact hnot (htop pre hpre)

/-- A balanced sequence from a state in which every open call has its context. -/
theorem Stacked.restored_iff {l₀ : ThreadLocals} {p : ThreadLocals × OpenCalls}
    {hooks : List (Hook × Inputs)} (h : Stacked l₀ p) (hpos : 0 < l₀.stackDepth)
    (hbalanced : Balanced p.2.opened.length hooks) :
    (Restored l₀ (hooks.foldl advance p).1 ∧
        ∀ pre, pre <+: hooks → TopBelongs (pre.foldl advance p)) ↔
      ∀ pre, pre <+: hooks →
        l₀.stackDepth + nesting p.2.opened.length pre ≤ maxContextDepth := by
  induction hooks generalizing p with
  | nil =>
    obtain ⟨l, c⟩ := p
    have hdepth : l.stackDepth = l₀.stackDepth + c.opened.length := h.depth
    have hzero : c.opened.length = 0 := hbalanced
    have hle := l.depth_le
    simp only [List.prefix_nil, forall_eq, List.foldl_nil, nesting]
    refine iff_of_true ⟨⟨?_, h.state⟩, h.topBelongs hpos⟩ (by omega)
    omega
  | cons e hooks ih =>
    obtain ⟨l, c⟩ := p
    obtain ⟨hook, inp⟩ := e
    have hdepth : l.stackDepth = l₀.stackDepth + c.opened.length := h.depth
    have hle := l.depth_le
    have hpos' : 0 < l.stackDepth := by omega
    have hnow : l₀.stackDepth + nesting c.opened.length [] ≤ maxContextDepth := hdepth ▸ hle
    rw [forall_prefix_cons, forall_prefix_cons]
    simp only [List.foldl_cons, List.foldl_nil, h.topBelongs hpos, hnow, true_and]
    -- a step that leaves all open calls with their contexts hands over to the rest
    have hstep : ∀ n, Stacked l₀ (advance (l, c) (hook, inp)) →
        (advance (l, c) (hook, inp)).2.opened.length = n → Balanced n hooks →
        ((Restored l₀ (hooks.foldl advance (advance (l, c) (hook, inp))).1 ∧
          ∀ pre, pre <+: hooks → TopBelongs (pre.foldl advance (advance (l, c) (hook, inp)))) ↔
          ∀ pre, pre <+: hooks → l₀.stackDepth + nesting n pre ≤ maxContextDepth) := by
      rintro n h' rfl hbalanced'
      exact ih h' hbalanced'
    cases hook with
    | startMeasurement =>
      exact hstep _ (h.startMeasurement hbalanced.1 hpos') rfl hbalanced.2
    | endMeasurement => exact hstep _ (h.endMeasurement hbalanced.1 hpos') rfl hbalanced.2
    | callStart =>
      by_cases hlt : l.stackDepth < maxContextDepth
      · exact hstep _ (h.callStart hlt) rfl hbalanced
      · have hfull : l.stackDepth = maxContextDepth := le_antisymm hle (not_lt.mp hlt)
        -- the push is refused, and so is the bound at this point
        refine iff_of_false (h.refused hpos hfull hbalanced) fun hfits ↦ ?_
        have hnext : l₀.stackDepth + (c.opened.length + 1) ≤ maxContextDepth :=
          hfits [] List.nil_prefix
        omega
    | callEnd =>
      refine hstep _ (h.callEnd hbalanced.1 hpos) ?_ hbalanced.2
      exact List.length_tail

/-! ## The code -/

section Code

variable {τ : Type} [DecidableEq τ] {t : τ} {k : ℕ} {l : ThreadLocals}

/-- **Balanced external calls.** Let a thread have a slot and at least one context, and make a
balanced sequence of external calls with region hooks inside them. Whatever other threads do, the
sequence leaves the contexts of before as they were, and at every point the top context belongs to
the innermost open call that was pushed, exactly if the nesting never needs more contexts than the
stack has. -/
theorem stack_restored_iff {hooks : List (Hook × Inputs)} (hslot : l.threadSlot = some k)
    (hpos : 0 < l.stackDepth) (hbalanced : Balanced 0 hooks) :
    ((observeHooks t hooks (l, .new)).Returns (fun p ↦ Restored l p.1) ∧
        ∀ pre, pre <+: hooks → (observeHooks t pre (l, .new)).Returns TopBelongs) ↔
      ∀ pre, pre <+: hooks → l.stackDepth + nesting 0 pre ≤ maxContextDepth := by
  have hcode : ∀ (hooks' : List (Hook × Inputs)) (P : ThreadLocals × OpenCalls → Prop),
      (observeHooks t hooks' (l, .new)).Returns P ↔ P (hooks'.foldl advance (l, .new)) := by
    intro hooks' P
    have : Nonempty (Shared τ) := ⟨.new⟩
    exact (observeHooks_returns hooks' .new hslot hpos).iff_of_eq
  rw [hcode]
  simp only [hcode]
  exact (Stacked.new l).restored_iff hpos hbalanced

end Code

/-- A thread that is in 31 nested external calls. -/
def deepThread : ThreadLocals where
  threadSlot := some 0
  contextStack i := ⟨if i.val = 0 then .normal else .externalSafe, 5⟩
  stackDepth := 32
  depth_le := le_rfl

/-- One call more. -/
def oneCall : List (Hook × Inputs) := [(.callStart, ⟨1, 5, 6, 7⟩), (.callEnd, ⟨1, 5, 8, 8⟩)]

/-- The return of the call that was refused pops the context of another. -/
theorem stack_not_restored :
    ∃ (l : ThreadLocals) (k : ℕ) (hooks : List (Hook × Inputs)),
      l.threadSlot = some k ∧ 0 < l.stackDepth ∧ Balanced 0 hooks ∧
      ¬(observeHooks () hooks (l, .new)).Returns fun p ↦ p.1.stackDepth = l.stackDepth := by
  refine ⟨deepThread, 0, oneCall, rfl, by decide, ⟨by decide, rfl⟩, ?_⟩
  have : Nonempty (Shared Unit) := ⟨.new⟩
  rw [(observeHooks_returns oneCall .new (l := deepThread) rfl (by decide)).iff_of_eq]
  decide

theorem stack_restored_iff_deepThread :
    ((observeHooks () oneCall (deepThread, .new)).Returns (fun p ↦ Restored deepThread p.1) ∧
        ∀ pre, pre <+: oneCall → (observeHooks () pre (deepThread, .new)).Returns TopBelongs) ↔
      ∀ pre, pre <+: oneCall → deepThread.stackDepth + nesting 0 pre ≤ maxContextDepth :=
  stack_restored_iff (k := 0) rfl (by decide) ⟨by decide, rfl⟩

end UnsafePerf.CpuCycle
