import UnsafePerf.Concurrency.Observer
import Mathlib.Algebra.BigOperators.Group.Finset.Basic
import Mathlib.Data.Bool.Basic

/-!
# One-shot flags

A flag makes something happen once: who takes it, with an atomic swap, owes the one output that it
stands for. `Program.Owes` follows the debt through a program. Taking the flag adds to it, putting
out pays, and a thread that rests owes just what it keeps for itself.

In a run nothing is lost of this (`Service.run_balance`). What is owed by all threads and what has
been put out grow together with the number of times the flag has been taken; and that exceeds the
number of times it has been given back by one at most, since a flag that is taken cannot be taken.
-/

namespace Concurrency

section Flag

variable {σ : Type} (flag : σ → Bool)

/-- How often a step takes the flag. -/
def takes (s s' : σ) : ℕ := (!flag s && flag s').toNat

/-- How often a step gives the flag back. -/
def drops (s s' : σ) : ℕ := (flag s && !flag s').toNat

theorem takes_balance (s s' : σ) :
    takes flag s s' + (flag s).toNat = (flag s').toNat + drops flag s s' := by
  rw [takes, drops]
  rcases flag s with _ | _ <;> rcases flag s' with _ | _ <;> rfl

theorem takes_of_eq {s s' : σ} (h : flag s' = flag s) : takes flag s s' = 0 := by
  rw [takes, h]
  rcases flag s with _ | _ <;> rfl

theorem drops_of_le {s s' : σ} (h : flag s = true → flag s' = true) : drops flag s s' = 0 := by
  rw [drops]
  rcases hs : flag s with _ | _
  · rfl
  · rw [h hs]
    rfl

end Flag

namespace Program

variable {σ α β : Type} (flag : σ → Bool) (out : σ → ℕ)

/-- A program that owes `n` outputs returns with a debt that `Q` allows. -/
def Owes (Q : α → ℕ → Prop) : ℕ → Program σ α → Prop
  | n, .done a => Q a n
  | n, .atomic update next => ∀ s,
    ∃ n', n' + out (update s) = n + out s + takes flag s (update s) ∧ (next s).Owes Q n'

variable {flag out} {P : α → ℕ → Prop} {Q : β → ℕ → Prop} {n : ℕ}

theorem Owes.bind {p : Program σ α} {f : α → Program σ β} (h : p.Owes flag out P n)
    (hf : ∀ a m, P a m → (f a).Owes flag out Q m) : (p >>= f).Owes flag out Q n := by
  induction p generalizing n with
  | done a => exact hf a n h
  | atomic u k ih =>
    intro s
    obtain ⟨n', hn', hrest⟩ := h s
    exact ⟨n', hn', ih s hrest⟩

theorem Owes.mono {P' : α → ℕ → Prop} {p : Program σ α} (h : p.Owes flag out P n)
    (hP : ∀ a m, P a m → P' a m) : p.Owes flag out P' n := by
  induction p generalizing n with
  | done a => exact hP a n h
  | atomic u k ih =>
    intro s
    obtain ⟨n', hn', hrest⟩ := h s
    exact ⟨n', hn', ih s hrest⟩

theorem owes_rmw {f : σ → α × σ}
    (h : ∀ s, ∃ n', n' + out (f s).2 = n + out s + takes flag s (f s).2 ∧ P (f s).1 n') :
    (rmw f).Owes flag out P n := h

/-- A step that neither takes the flag nor puts anything out. -/
theorem owes_keep {f : σ → α × σ} (htakes : ∀ s, takes flag s (f s).2 = 0)
    (hout : ∀ s, out (f s).2 = out s) : (rmw f).Owes flag out (fun _ m ↦ m = n) n :=
  fun s ↦ ⟨n, by rw [htakes, hout, add_zero], rfl⟩

/-- A program whose steps touch neither the flag nor the output leaves the debt as it is. -/
theorem Steps.owes {p : Program σ α}
    (h : p.Steps (fun _ _ ↦ True) fun s s' ↦ flag s' = flag s ∧ out s' = out s) :
    p.Owes flag out (fun _ m ↦ m = n) n := by
  induction p with
  | done a => rfl
  | atomic u k ih =>
    intro s
    obtain ⟨⟨hflag, hout⟩, hrest⟩ := h s trivial
    refine ⟨n, ?_, ih s hrest⟩
    rw [hout, takes_of_eq flag hflag]
    rfl

/-! ### Giving the flag back -/

/-- The program gives the flag back at most `n` times. -/
def DropsAtMost (flag : σ → Bool) : ℕ → Program σ α → Prop
  | _, .done _ => True
  | n, .atomic update next => ∀ s,
    ∃ n', n' + drops flag s (update s) ≤ n ∧ (next s).DropsAtMost flag n'

theorem DropsAtMost.bind {p : Program σ α} {f : α → Program σ β} {m : ℕ}
    (h : p.DropsAtMost flag n) (hf : ∀ a, (f a).DropsAtMost flag m) :
    (p >>= f).DropsAtMost flag (n + m) := by
  induction p generalizing n with
  | done a =>
    rcases hfa : f a with b | ⟨u, k⟩
    · exact (congrArg (DropsAtMost flag (n + m)) hfa).mpr trivial
    · have hstep := hf a
      rw [hfa] at hstep
      refine (congrArg (DropsAtMost flag (n + m)) hfa).mpr fun s ↦ ?_
      obtain ⟨n', hn', hrest⟩ := hstep s
      exact ⟨n', by omega, hrest⟩
  | atomic u k ih =>
    intro s
    obtain ⟨n', hn', hrest⟩ := h s
    exact ⟨n' + m, by omega, ih s hrest⟩

/-- One step gives the flag back once at most. -/
theorem dropsAtMost_rmw (f : σ → α × σ) : (rmw f).DropsAtMost flag 1 :=
  fun s ↦ ⟨0, by rw [zero_add]; exact Bool.toNat_le _, trivial⟩

/-- A program that leaves a taken flag taken never gives it back. -/
theorem Steps.dropsAtMost {p : Program σ α}
    (h : p.Steps (fun _ _ ↦ True) fun s s' ↦ flag s = true → flag s' = true) :
    p.DropsAtMost flag 0 := by
  induction p with
  | done a => trivial
  | atomic u k ih =>
    intro s
    obtain ⟨hkeep, hrest⟩ := h s trivial
    exact ⟨0, by rw [drops_of_le flag hkeep], ih s hrest⟩

end Program

namespace Service

variable {τ κ σ ℓ : Type} [DecidableEq τ] (S : Service τ κ σ ℓ) (flag : σ → Bool)

/-- How often the flag is given back in a run. -/
def dropped (c : Config τ σ ℓ) : List (Move τ κ) → ℕ
  | [] => 0
  | m :: ms => drops flag c.shared (S.move c m).shared + dropped (S.move c m) ms

theorem dropped_append_singleton (c : Config τ σ ℓ) (ms : List (Move τ κ)) (m : Move τ κ) :
    S.dropped flag c (ms ++ [m]) = S.dropped flag c ms
      + drops flag (S.run c ms).shared (S.run c (ms ++ [m])).shared := by
  induction ms generalizing c with
  | nil =>
    rw [List.nil_append, dropped, dropped, dropped, add_zero, zero_add]
    rfl
  | cons m' ms ih => rw [List.cons_append, dropped, dropped, ih, add_assoc]; rfl

/-- Where no step gives the flag back, it is never given back. -/
theorem dropped_eq_zero {c : Config τ σ ℓ} {ms : List (Move τ κ)}
    (h : ∀ pre m, pre ++ [m] <+: ms →
      flag (S.run c pre).shared = true → flag (S.run c (pre ++ [m])).shared = true) :
    S.dropped flag c ms = 0 := by
  induction ms using List.reverseRecOn with
  | nil => rfl
  | append_singleton ms m ih =>
    rw [dropped_append_singleton, ih fun pre m' hpre ↦ h pre m' (hpre.trans (List.prefix_append _ _)),
      drops_of_le flag (h ms m List.prefix_rfl)]

/-- A call that its thread does not accept changes nothing. -/
theorem move_call_ignored {c : Config τ σ ℓ} {t : τ} {k : κ}
    (h : ¬∃ l, c.thread t = .done l ∧ S.allowed t k l c.shared = true) : S.move c (.call t k) = c := by
  rcases ht : c.thread t with l | ⟨update, next⟩
  · exact S.move_call_refused k ht fun hall ↦ h ⟨l, ht, hall⟩
  · exact S.move_call_busy k ht

/-- A sum after a change at one place. -/
theorem sum_update_add [Fintype τ] (f : τ → ℕ) (t : τ) (n : ℕ) :
    ∑ u, Function.update f t n u + f t = ∑ u, f u + n := by
  have hbefore := Finset.add_sum_erase Finset.univ f (Finset.mem_univ t)
  have hafter := Finset.add_sum_erase Finset.univ (Function.update f t n) (Finset.mem_univ t)
  have hothers : ∑ u ∈ Finset.univ.erase t, Function.update f t n u
      = ∑ u ∈ Finset.univ.erase t, f u :=
    Finset.sum_congr rfl fun u hu ↦ Function.update_of_ne (Finset.ne_of_mem_erase hu) ..
  rw [Function.update_self, hothers] at hafter
  omega

variable [Fintype τ] {flag} {out : σ → ℕ} {kept : ℓ → ℕ}

/-- **The balance of a one-shot flag.** If every call settles its debts up to what its thread keeps,
then in every run what is owed and what has been put out are as much as the flag has been taken. -/
theorem run_balance
    (hcode : ∀ t k l, (S.code t k l).Owes flag out (fun l' m ↦ m = kept l') (kept l))
    {c : Config τ σ ℓ} {debt₀ : τ → ℕ}
    (hstart : ∀ t, (c.thread t).Owes flag out (fun l' m ↦ m = kept l') (debt₀ t))
    (ms : List (Move τ κ)) :
    ∃ debt : τ → ℕ,
      (∀ t, ((S.run c ms).thread t).Owes flag out (fun l' m ↦ m = kept l') (debt t)) ∧
      ∑ t, debt t + out (S.run c ms).shared + (flag c.shared).toNat
        = ∑ t, debt₀ t + out c.shared + (flag (S.run c ms).shared).toNat
          + S.dropped flag c ms := by
  induction ms using List.reverseRecOn with
  | nil => exact ⟨debt₀, hstart, rfl⟩
  | append_singleton ms m ih =>
    obtain ⟨debt, hdebt, hsum⟩ := ih
    rw [dropped_append_singleton, run_append_singleton]
    generalize S.run c ms = d at hdebt hsum
    have hzero : drops flag d.shared d.shared = 0 := drops_of_le flag id
    rcases m with ⟨t, k⟩ | t
    · -- a call changes nothing that is shared, and its thread keeps what it had
      by_cases hidle : ∃ l, d.thread t = .done l ∧ S.allowed t k l d.shared = true
      · obtain ⟨l, ht, hall⟩ := hidle
        rw [S.move_call k ht hall]
        refine ⟨debt, fun u ↦ ?_, by rw [hzero, add_zero]; exact hsum⟩
        by_cases hu : u = t
        · subst hu
          have hkept : debt u = kept l := by
            have h := hdebt u
            rwa [ht] at h
          simp only [Function.update_self]
          exact hkept ▸ hcode u k l
        · simp only [Function.update_of_ne hu]
          exact hdebt u
      · rw [S.move_call_ignored hidle]
        exact ⟨debt, hdebt, by rw [hzero, add_zero]; exact hsum⟩
    · rcases ht : d.thread t with l | ⟨update, next⟩
      · rw [S.move_step_idle ht]
        exact ⟨debt, hdebt, by rw [hzero, add_zero]; exact hsum⟩
      · have hstep := hdebt t
        rw [ht] at hstep
        obtain ⟨n', hn', hrest⟩ := hstep d.shared
        rw [S.move_step ht]
        refine ⟨Function.update debt t n', fun u ↦ ?_, ?_⟩
        · by_cases hu : u = t
          · subst hu
            simpa only [Function.update_self] using hrest
          · simpa only [Function.update_of_ne hu] using hdebt u
        · have hbalance := takes_balance flag d.shared (update d.shared)
          have hdebts := sum_update_add debt t n'
          dsimp only
          omega

/-- What the calls of some moves cost. -/
def cost (price : κ → ℕ) : List (Move τ κ) → ℕ
  | [] => 0
  | .call _ k :: ms => price k + cost price ms
  | .step _ :: ms => cost price ms

omit [DecidableEq τ] [Fintype τ] in
theorem cost_append (price : κ → ℕ) (ms ms' : List (Move τ κ)) :
    cost price (ms ++ ms') = cost price ms + cost price ms' := by
  induction ms with
  | nil => rw [List.nil_append, cost, zero_add]
  | cons m ms ih =>
    rcases m with ⟨t, k⟩ | t
    · rw [List.cons_append, cost, cost, ih, add_assoc]
    · rw [List.cons_append, cost, cost, ih]

/-- The flag is given back no more often than the calls that are made may do so. -/
theorem dropped_le {price : κ → ℕ} (hcode : ∀ t k l, (S.code t k l).DropsAtMost flag (price k))
    {c : Config τ σ ℓ} (hstart : ∀ t, (c.thread t).DropsAtMost flag 0) (ms : List (Move τ κ)) :
    S.dropped flag c ms ≤ cost price ms := by
  have hbudget : ∃ budget : τ → ℕ, (∀ t, ((S.run c ms).thread t).DropsAtMost flag (budget t)) ∧
      ∑ t, budget t + S.dropped flag c ms ≤ cost price ms := by
    induction ms using List.reverseRecOn with
    | nil => exact ⟨fun _ ↦ 0, hstart, by simp [dropped, cost]⟩
    | append_singleton ms m ih =>
      obtain ⟨budget, hbudget, hsum⟩ := ih
      rw [dropped_append_singleton, run_append_singleton, cost_append]
      generalize S.run c ms = d at hbudget
      have hzero : drops flag d.shared d.shared = 0 := drops_of_le flag id
      rcases m with ⟨t, k⟩ | t
      · by_cases hidle : ∃ l, d.thread t = .done l ∧ S.allowed t k l d.shared = true
        · obtain ⟨l, ht, hall⟩ := hidle
          rw [S.move_call k ht hall]
          refine ⟨Function.update budget t (price k), fun u ↦ ?_, ?_⟩
          · by_cases hu : u = t
            · subst hu
              simpa only [Function.update_self] using hcode u k l
            · simpa only [Function.update_of_ne hu] using hbudget u
          · have := sum_update_add budget t (price k)
            simp only [cost]
            omega
        · rw [S.move_call_ignored hidle]
          exact ⟨budget, hbudget, by simp only [cost]; omega⟩
      · rcases ht : d.thread t with l | ⟨update, next⟩
        · rw [S.move_step_idle ht]
          exact ⟨budget, hbudget, by simp only [cost]; omega⟩
        · have hstep := hbudget t
          rw [ht] at hstep
          obtain ⟨n', hn', hrest⟩ := hstep d.shared
          rw [S.move_step ht]
          refine ⟨Function.update budget t n', fun u ↦ ?_, ?_⟩
          · by_cases hu : u = t
            · subst hu
              simpa only [Function.update_self] using hrest
            · simpa only [Function.update_of_ne hu] using hbudget u
          · have := sum_update_add budget t n'
            simp only [cost]
            omega
  obtain ⟨budget, -, hsum⟩ := hbudget
  omega

end Service

end Concurrency
