import UnsafePerf.Concurrency.Program
import Mathlib.Algebra.BigOperators.Group.Finset.Basic
import Mathlib.Algebra.Order.Group.Multiset
import Mathlib.Data.Multiset.MapFold
import Mathlib.Data.Fintype.Basic

/-!
# Commuting updates

A program that never looks at what it reads, and whose steps are updates that commute with each
other, does the same whatever runs next to it. What remains of a run is then a multiset: the updates
of all calls, applied in any order.

`Program.Applies` says that a program applies the updates of a multiset, one with each step.
`Service.accepted` lists the calls of a run. The result is `Service.run_settled`: when all threads
are between calls, the shared state is the one at the start with the updates of all calls applied.

## The invariant

A call that has begun has its updates split between the shared state and what is left of its
program. So, at every moment, the shared state with the updates of all unfinished programs applied
is the state at the start with the updates of all calls applied.
-/

namespace Concurrency

/-! ## Programs that apply updates -/

namespace Program

variable {σ α β ε : Type} {apply : ε → σ → σ}

/-- Each step of the program applies one update of the multiset, whatever the program reads. -/
def Applies (apply : ε → σ → σ) : Program σ α → Multiset ε → Prop
  | .done _, m => m = 0
  | .atomic update next, m =>
    ∃ e m', m = e ::ₘ m' ∧ update = apply e ∧ ∀ s, (next s).Applies apply m'

theorem applies_done (a : α) : (.done a : Program σ α).Applies apply 0 := rfl

theorem applies_rmw {f : σ → α × σ} {e : ε} (h : ∀ s, (f s).2 = apply e s) :
    (rmw f).Applies apply {e} :=
  ⟨e, 0, rfl, funext h, fun _ ↦ rfl⟩

theorem Applies.bind {p : Program σ α} {f : α → Program σ β} {m m' : Multiset ε}
    (hp : p.Applies apply m) (hf : ∀ a, (f a).Applies apply m') :
    (p >>= f).Applies apply (m + m') := by
  induction p generalizing m with
  | done a =>
    obtain rfl : m = 0 := hp
    rw [zero_add]
    exact hf a
  | atomic update next ih =>
    obtain ⟨e, m₁, rfl, hupdate, hnext⟩ := hp
    exact ⟨e, m₁ + m', Multiset.cons_add e m₁ m', hupdate, fun s ↦ ih s (hnext s)⟩

/-- Run alone, the program applies all its updates. -/
theorem Applies.exec [LeftCommutative apply] {p : Program σ α} {m : Multiset ε}
    (h : p.Applies apply m) (s : σ) : (p.exec s).2 = m.foldr apply s := by
  induction p generalizing m s with
  | done a =>
    obtain rfl : m = 0 := h
    rfl
  | atomic update next ih =>
    obtain ⟨e, m', rfl, rfl, hnext⟩ := h
    rw [Program.exec, ih s (hnext s), ← Multiset.singleton_add, add_comm, Multiset.foldr_add,
      Multiset.foldr_singleton]

end Program

/-! ## Services whose calls apply updates -/

namespace Service

variable {τ κ σ ℓ : Type} [DecidableEq τ] (S : Service τ κ σ ℓ)

/-- The calls that the moves of a run begin. -/
def accepted (c : Config τ σ ℓ) : List (Move τ κ) → List κ
  | [] => []
  | m :: ms =>
    let rest := accepted (S.move c m) ms
    match m with
    | .call t k =>
      match c.thread t with
      | .done l => if S.allowed t k l c.shared then k :: rest else rest
      | .atomic _ _ => rest
    | .step _ => rest

theorem accepted_cons (c : Config τ σ ℓ) (m : Move τ κ) (ms : List (Move τ κ)) :
    S.accepted c (m :: ms) = S.accepted c [m] ++ S.accepted (S.move c m) ms := by
  rcases m with ⟨t, k⟩ | t
  · rcases ht : c.thread t with l | ⟨update, next⟩
    · by_cases hall : S.allowed t k l c.shared = true <;> simp [accepted, ht, hall]
    · simp [accepted, ht]
  · rfl

theorem accepted_append (c : Config τ σ ℓ) (ms ms' : List (Move τ κ)) :
    S.accepted c (ms ++ ms') = S.accepted c ms ++ S.accepted (S.run c ms) ms' := by
  induction ms generalizing c with
  | nil => rfl
  | cons m ms ih =>
    rw [List.cons_append, S.accepted_cons c m (ms ++ ms'), S.accepted_cons c m ms, ih,
      List.append_assoc]
    rfl

variable {ε : Type} {apply : ε → σ → σ} {effects : κ → Multiset ε}

section Sums

variable [Fintype τ] {pending : τ → Multiset ε}

theorem sum_update (pending : τ → Multiset ε) (t : τ) (m : Multiset ε) :
    ∑ u, Function.update pending t m u + pending t = m + ∑ u, pending u := by
  have hrest : ∑ u ∈ Finset.univ.erase t, Function.update pending t m u
      = ∑ u ∈ Finset.univ.erase t, pending u :=
    Finset.sum_congr rfl fun u hu ↦ Function.update_of_ne (Finset.ne_of_mem_erase hu) ..
  rw [← Finset.add_sum_erase _ _ (Finset.mem_univ t), hrest, Function.update_self,
    ← Finset.add_sum_erase Finset.univ pending (Finset.mem_univ t), add_assoc, add_comm (pending t)]

omit [Fintype τ] in
theorem applies_update {c : Config τ σ ℓ} {t : τ} {p : Program σ ℓ} {m : Multiset ε}
    (h : ∀ u, (c.thread u).Applies apply (pending u)) (hp : p.Applies apply m) (u : τ) :
    (Function.update c.thread t p u).Applies apply (Function.update pending t m u) := by
  by_cases hu : u = t
  · subst hu
    rwa [Function.update_self, Function.update_self]
  · rw [Function.update_of_ne hu, Function.update_of_ne hu]
    exact h u

variable [LeftCommutative apply]

/-- What one move applies leaves the pending updates, and what it begins joins them, whatever else
is applied later. -/
theorem move_applies (hcode : ∀ t k l, (S.code t k l).Applies apply (effects k)) (m : Move τ κ)
    {c : Config τ σ ℓ} (h : ∀ t, (c.thread t).Applies apply (pending t)) :
    ∃ pending' : τ → Multiset ε, (∀ t, ((S.move c m).thread t).Applies apply (pending' t)) ∧
      ∀ later : Multiset ε, (∑ t, pending' t + later).foldr apply (S.move c m).shared
        = (∑ t, pending t + (((S.accepted c [m]).map effects).sum + later)).foldr apply
            c.shared := by
  rcases m with ⟨t, k⟩ | t
  · rcases ht : c.thread t with l | ⟨update, next⟩
    · by_cases hall : S.allowed t k l c.shared = true
      · have hnone : pending t = 0 := by
          have ht' := h t
          rwa [ht] at ht'
        have hupdate := sum_update pending t (effects k)
        rw [hnone, add_zero] at hupdate
        rw [S.move_call k ht hall]
        refine ⟨Function.update pending t (effects k), applies_update h (hcode t k l),
          fun later ↦ ?_⟩
        simp only [accepted, ht, if_pos hall, List.map_cons, List.map_nil, List.sum_cons,
          List.sum_nil, hupdate]
        rw [add_zero, add_left_comm, add_assoc]
      · rw [S.move_call_refused k ht hall]
        exact ⟨pending, h, fun later ↦ by simp [accepted, ht, hall]⟩
    · rw [S.move_call_busy k ht]
      exact ⟨pending, h, fun later ↦ by simp [accepted, ht]⟩
  · rcases ht : c.thread t with l | ⟨update, next⟩
    · rw [S.move_step_idle ht]
      exact ⟨pending, h, fun later ↦ by simp [accepted]⟩
    · have ht' := h t
      rw [ht] at ht'
      obtain ⟨e, m', hpending, hupdate, hnext⟩ := ht'
      rw [S.move_step ht]
      refine ⟨Function.update pending t m', applies_update h (hnext c.shared), fun later ↦ ?_⟩
      -- the update just applied was the first of its program
      have hsplit : ∑ u, pending u = ∑ u, Function.update pending t m' u + {e} := by
        have hupdated := sum_update pending t m'
        rw [hpending, ← Multiset.singleton_add e m', add_comm {e} m', ← add_assoc,
          add_right_comm, add_comm _ m'] at hupdated
        exact (add_left_cancel hupdated).symm
      simp only [accepted, List.map_nil, List.sum_nil, zero_add]
      rw [hsplit, add_right_comm, Multiset.foldr_add _ _ _ {e}, Multiset.foldr_singleton, ← hupdate]

/-- The invariant: what has been applied and what is pending make up the updates of all calls. -/
theorem run_applies (hcode : ∀ t k l, (S.code t k l).Applies apply (effects k))
    (ms : List (Move τ κ)) {c : Config τ σ ℓ}
    (h : ∀ t, (c.thread t).Applies apply (pending t)) :
    ∃ pending' : τ → Multiset ε, (∀ t, ((S.run c ms).thread t).Applies apply (pending' t)) ∧
      (∑ t, pending' t).foldr apply (S.run c ms).shared
        = (∑ t, pending t + ((S.accepted c ms).map effects).sum).foldr apply c.shared := by
  induction ms generalizing c pending with
  | nil =>
    refine ⟨pending, h, ?_⟩
    rw [S.run_nil, accepted, List.map_nil, List.sum_nil, add_zero]
  | cons m ms ih =>
    obtain ⟨pending₁, hthreads₁, hsum₁⟩ := S.move_applies hcode m h
    obtain ⟨pending', hthreads, hsum⟩ := ih hthreads₁
    refine ⟨pending', hthreads, hsum.trans ?_⟩
    rw [hsum₁, S.accepted_cons c m ms, List.map_append, List.sum_append]

/-- **Order does not matter.** When all threads are between calls, the updates of all calls have
been applied. -/
theorem run_settled (hcode : ∀ t k l, (S.code t k l).Applies apply (effects k))
    {c : Config τ σ ℓ} (hstart : ∀ t, ∃ l, c.Idle t l) {ms : List (Move τ κ)}
    (hend : ∀ t, ∃ l, (S.run c ms).Idle t l) :
    (S.run c ms).shared = ((S.accepted c ms).map effects).sum.foldr apply c.shared := by
  have hbefore : ∀ t, (c.thread t).Applies apply 0 := by
    intro t
    obtain ⟨l, hl⟩ := hstart t
    rw [hl]
    exact Program.applies_done l
  obtain ⟨pending, hthreads, hsum⟩ := S.run_applies hcode ms hbefore
  have hnone : ∑ t, pending t = 0 := by
    refine Finset.sum_eq_zero fun t _ ↦ ?_
    obtain ⟨l, hl⟩ := hend t
    have ht := hthreads t
    rwa [hl] at ht
  rwa [hnone, Multiset.foldr_zero, Finset.sum_const_zero, zero_add] at hsum

end Sums

end Service

end Concurrency
