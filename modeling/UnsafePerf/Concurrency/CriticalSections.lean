import UnsafePerf.Concurrency.Commuting
import UnsafePerf.Concurrency.LockOrder

/-!
# Critical sections as atomic steps

A component with mutexes is often understood as if a critical section were one step. That is right
when every mutex protects some of the data, and nobody changes these without holding it: whoever
holds the mutexes sees the same data until the mutexes are given back.

`LockProgram.Refines` compares a program with mutexes to one of atomic steps. It is a recursion on
the first program: each of its steps is one step of the second or none, and before each step the
other threads may have changed whatever is not protected by the mutexes that are held. Whoever has
read protected data therefore still knows them (`Refines.keep`).

In a run, each thread's program refines its counterpart in a run of the atomic service
(`Matched.run`), which makes that run one in which the critical sections do not overlap at all.
-/

namespace Concurrency

namespace LockProgram

variable {μ σ σ' ℓ α α' β β' : Type}

/-- The states agree on all that the mutexes protect. -/
def SameUnder (same : μ → σ → σ → Prop) (held : Finset μ) (s s' : σ) : Prop :=
  ∀ m ∈ held, same m s s'

/-- What the mutexes protect stays the same while nobody changes it. -/
structure Protects (same : μ → σ → σ → Prop) : Prop where
  refl : ∀ m s, same m s s
  trans : ∀ {m s₁ s₂ s₃}, same m s₁ s₂ → same m s₂ s₃ → same m s₁ s₃

theorem Protects.sameUnder_refl {same : μ → σ → σ → Prop} (hsame : Protects same)
    (held : Finset μ) (s : σ) : SameUnder same held s s := fun m _ ↦ hsame.refl m s

variable [DecidableEq μ]

/-- Started in `s` with the mutexes `held`, the first program does what the second does, changes
protected data only under their mutex, and returns with the mutexes `kept` and with `Q`. -/
def Refines (same : μ → σ → σ → Prop) (Rel : σ → σ' → Prop) (kept : Finset μ)
    (Q : α → α' → σ → Prop) : Finset μ → LockProgram μ σ ℓ α → Program σ' α' → σ → Prop
  | held, .done a, q, s => ∀ s₁, SameUnder same held s s₁ →
    held = kept ∧ ∃ a', q = .done a' ∧ Q a a' s₁
  | held, .atomic update next, q, s => ∀ s₁, SameUnder same held s s₁ →
    (∀ m ∉ held, same m s₁ (update s₁)) ∧
    ((∀ s₂, Rel s₁ s₂ → Rel (update s₁) s₂) ∧
        Refines same Rel kept Q held (next s₁) q (update s₁) ∨
      ∃ update' next', q = .atomic update' next' ∧ ∀ s₂, Rel s₁ s₂ →
        Rel (update s₁) (update' s₂) ∧
          Refines same Rel kept Q held (next s₁) (next' s₂) (update s₁))
  | held, .lock m next, q, s => ∀ s₁, SameUnder same held s s₁ →
    Refines same Rel kept Q (insert m held) next q s₁
  | held, .unlock m next, q, s => ∀ s₁, SameUnder same held s s₁ →
    m ∈ held ∧ Refines same Rel kept Q (held.erase m) next q s₁
  | _, .callback _ _, _, _ => False

variable {same : μ → σ → σ → Prop} {Rel : σ → σ' → Prop} {kept kept' held : Finset μ}
  {P : α → α' → σ → Prop} {Q : β → β' → σ → Prop} {s s₁ : σ}

namespace Refines

/-- What the program refines survives what the other threads may change. -/
theorem keep (hsame : Protects same) {p : LockProgram μ σ ℓ α} {q : Program σ' α'}
    (h : p.Refines same Rel kept P held q s) (hs : SameUnder same held s s₁) :
    p.Refines same Rel kept P held q s₁ := by
  rcases p with a | ⟨update, next⟩ | ⟨m, next⟩ | ⟨m, next⟩ | ⟨l, next⟩
  · exact fun s₂ h₂ ↦ h s₂ fun m hm ↦ hsame.trans (hs m hm) (h₂ m hm)
  · exact fun s₂ h₂ ↦ h s₂ fun m hm ↦ hsame.trans (hs m hm) (h₂ m hm)
  · exact fun s₂ h₂ ↦ h s₂ fun m hm ↦ hsame.trans (hs m hm) (h₂ m hm)
  · exact fun s₂ h₂ ↦ h s₂ fun m hm ↦ hsame.trans (hs m hm) (h₂ m hm)
  · exact h

theorem done {a : α} {a' : α'} (h : ∀ s₁, SameUnder same kept s s₁ → P a a' s₁) :
    (LockProgram.done a : LockProgram μ σ ℓ α).Refines same Rel kept P kept (.done a') s :=
  fun s₁ hs ↦ ⟨rfl, a', rfl, h s₁ hs⟩

/-- Sequencing. -/
theorem bind (hsame : Protects same) {p : LockProgram μ σ ℓ α} {q : Program σ' α'}
    {f : α → LockProgram μ σ ℓ β} {g : α' → Program σ' β'}
    (h : p.Refines same Rel kept P held q s)
    (hf : ∀ a a' s₁, P a a' s₁ → (f a).Refines same Rel kept' Q kept (g a') s₁) :
    (p >>= f).Refines same Rel kept' Q held (q >>= g) s := by
  induction p generalizing held q s with
  | done a =>
    obtain ⟨rfl, a', rfl, ha⟩ := h s (hsame.sameUnder_refl held s)
    exact hf a a' s ha
  | atomic update next ih =>
    intro s₁ hs
    obtain ⟨hframe, ⟨hstutter, hrest⟩ | ⟨update', next', rfl, hmatch⟩⟩ := h s₁ hs
    · exact ⟨hframe, .inl ⟨hstutter, ih s₁ hrest⟩⟩
    · refine ⟨hframe, .inr ⟨update', _, rfl, fun s₂ hrel ↦ ?_⟩⟩
      exact ⟨(hmatch s₂ hrel).1, ih s₁ (hmatch s₂ hrel).2⟩
  | lock m next ih => exact fun s₁ hs ↦ ih (h s₁ hs)
  | unlock m next ih => exact fun s₁ hs ↦ ⟨(h s₁ hs).1, ih (h s₁ hs).2⟩
  | callback l next ih => exact h

/-- The first program begins with steps the second does not have. -/
theorem silent (hsame : Protects same) {p : LockProgram μ σ ℓ α} {f : α → LockProgram μ σ ℓ β}
    {q : Program σ' β'} {R : α → σ → Prop}
    (h : p.Refines same Rel kept (fun a (_ : Unit) ↦ R a) held (.done ()) s)
    (hf : ∀ a s₁, R a s₁ → (f a).Refines same Rel kept' Q kept q s₁) :
    (p >>= f).Refines same Rel kept' Q held q s :=
  bind hsame (g := fun _ ↦ q) h fun a _ s₁ ha ↦ hf a s₁ ha

/-- A step that the second program has as well. -/
theorem rmw {f : σ → α × σ} {g : σ' → α' × σ'}
    (hframe : ∀ s₁, ∀ m ∉ held, same m s₁ (f s₁).2)
    (hrel : ∀ s₁ s₂, Rel s₁ s₂ → Rel (f s₁).2 (g s₂).2)
    (hP : ∀ s₁ s₂ s₃, SameUnder same held s s₁ → Rel s₁ s₂ → SameUnder same held (f s₁).2 s₃ →
      P (f s₁).1 (g s₂).1 s₃) :
    (ofProgram (.rmw f) : LockProgram μ σ ℓ α).Refines same Rel held P held (.rmw g) s :=
  fun s₁ hs ↦ ⟨hframe s₁, .inr ⟨_, _, rfl, fun s₂ h₂ ↦
    ⟨hrel s₁ s₂ h₂, done fun s₃ h₃ ↦ hP s₁ s₂ s₃ hs h₂ h₃⟩⟩⟩

/-- A step that the second program does not have, since it shows nothing. -/
theorem silent_rmw {f : σ → α × σ} {R : α → σ → Prop}
    (hframe : ∀ s₁, ∀ m ∉ held, same m s₁ (f s₁).2)
    (hrel : ∀ s₁ s₂, Rel s₁ s₂ → Rel (f s₁).2 s₂)
    (hR : ∀ s₁ s₂, SameUnder same held s s₁ → SameUnder same held (f s₁).2 s₂ → R (f s₁).1 s₂) :
    (ofProgram (.rmw f) : LockProgram μ σ ℓ α).Refines same Rel held (fun a (_ : Unit) ↦ R a) held
      (.done ()) s :=
  fun s₁ hs ↦ ⟨hframe s₁, .inl ⟨hrel s₁, done fun s₂ h₂ ↦ hR s₁ s₂ hs h₂⟩⟩

/-- A load of protected data, which stay the same from then on. -/
theorem silent_load (hsame : Protects same) {f : σ → α}
    (hf : ∀ s₁ s₂, SameUnder same held s₁ s₂ → f s₂ = f s₁) :
    (ofProgram (.load f) : LockProgram μ σ ℓ α).Refines same Rel held
      (fun a (_ : Unit) s₁ ↦ SameUnder same held s s₁ ∧ a = f s) held (.done ()) s :=
  silent_rmw (fun s₁ m _ ↦ hsame.refl m s₁) (fun _ _ h ↦ h) fun s₁ _ h₁ h₂ ↦
    ⟨fun m hm ↦ hsame.trans (h₁ m hm) (h₂ m hm), hf s s₁ h₁⟩

/-- A critical section inside of others. What is known at its end is what does not depend on its own
mutex. -/
theorem holding (hsame : Protects same) {p : LockProgram μ σ ℓ α} {q : Program σ' α'} {m : μ}
    {P' : α → α' → σ → Prop} (hm : m ∉ held)
    (h : ∀ s₁, SameUnder same held s s₁ →
      p.Refines same Rel (insert m held) P (insert m held) q s₁)
    (hP : ∀ a a' s₁ s₂, P a a' s₁ → SameUnder same held s₁ s₂ → P' a a' s₂) :
    (LockProgram.holding m p).Refines same Rel held P' held q s := by
  intro s₁ hs
  rw [← bind_pure q]
  refine Refines.bind (p := p) hsame (h s₁ hs) fun a a' s₂ ha s₃ h₃ ↦ ?_
  refine ⟨Finset.mem_insert_self m held, ?_⟩
  rw [Finset.erase_insert hm]
  exact done fun s₄ h₄ ↦ hP a a' s₂ s₄ ha fun m' hm' ↦
    hsame.trans (h₃ m' (Finset.mem_insert_of_mem hm')) (h₄ m' hm')

end Refines

end LockProgram

/-! ## Runs -/

section Matched

open LockProgram

variable {τ κ κ' μ σ σ' ℓ ℓ' : Type} [DecidableEq τ] [DecidableEq μ]

/-- The operation of the atomic service that stands for a call, if any does. -/
def Service.counterpart (S : Service τ κ' σ' ℓ') (abs : κ → Option κ') (t : τ) (k : κ) (l' : ℓ') :
    Program σ' ℓ' :=
  match abs k with
  | some k' => S.code t k' l'
  | none => .done l'

/-- A call, if a call of the atomic service stands for it. -/
def Move.counterpart (abs : κ → Option κ') : Move τ κ → Option (τ × κ')
  | .call t k => (abs k).map (t, ·)
  | .step _ => none

/-- Whether a call of the thread begins: it is idle, or inside a callback. -/
def LockConfig.accepts (c : LockConfig τ μ σ ℓ) (t : τ) : Bool :=
  match c.thread t with
  | ⟨.done _, []⟩ | ⟨.callback _ _, _⟩ => true
  | _ => false

/-- The calls that a move begins. -/
def LockConfig.begun (c : LockConfig τ μ σ ℓ) : Move τ κ → List (τ × κ)
  | .call t k => if c.accepts t then [(t, k)] else []
  | .step _ => []

/-- The calls that the moves of a run begin. -/
def LockConfig.accepted (code : τ → κ → ℓ → LockProgram μ σ ℓ ℓ) (c : LockConfig τ μ σ ℓ) :
    List (Move τ κ) → List (τ × κ)
  | [] => []
  | m :: ms => c.begun m ++ accepted code (c.move code m) ms

theorem LockConfig.accepted_append_singleton (code : τ → κ → ℓ → LockProgram μ σ ℓ ℓ)
    (c : LockConfig τ μ σ ℓ) (ms : List (Move τ κ)) (m : Move τ κ) :
    accepted code c (ms ++ [m]) = accepted code c ms ++ (run code c ms).begun m := by
  induction ms generalizing c with
  | nil => exact List.append_nil _
  | cons m' ms ih =>
    rw [List.cons_append, accepted, accepted, ih, List.append_assoc]
    rfl

omit [DecidableEq τ] [DecidableEq μ] in
theorem LockConfig.begun_sublist (c : LockConfig τ μ σ ℓ) (m : Move τ κ) :
    (c.begun m).Sublist (Move.counterpart some m).toList := by
  rcases m with ⟨t, k⟩ | t
  · rw [LockConfig.begun]
    split
    · exact List.Sublist.refl _
    · exact List.nil_sublist _
  · exact List.nil_sublist _

/-- A thread can only begin the calls it is made to make. -/
theorem LockConfig.accepted_sublist (code : τ → κ → ℓ → LockProgram μ σ ℓ ℓ)
    (c : LockConfig τ μ σ ℓ) (ms : List (Move τ κ)) :
    (accepted code c ms).Sublist (ms.filterMap (Move.counterpart some)) := by
  induction ms generalizing c with
  | nil => exact List.Sublist.refl _
  | cons m ms ih =>
    have hcons : (m :: ms).filterMap (Move.counterpart some)
        = (Move.counterpart some m).toList ++ ms.filterMap (Move.counterpart some) := by
      rw [List.filterMap_cons]
      rcases Move.counterpart some m with _ | e <;> rfl
    rw [accepted, hcons]
    exact (c.begun_sublist m).append (ih _)

/-- The call of the atomic service that stands for a call, with its thread. -/
def Move.abstractCall (abs : κ → Option κ') (call : τ × κ) : Option (τ × κ') :=
  (abs call.2).map (call.1, ·)

theorem LockConfig.accepted_abstract_sublist (code : τ → κ → ℓ → LockProgram μ σ ℓ ℓ)
    (c : LockConfig τ μ σ ℓ) (ms : List (Move τ κ)) (abs : κ → Option κ') :
    ((accepted code c ms).filterMap (Move.abstractCall abs)).Sublist
      (ms.filterMap (Move.counterpart abs)) := by
  have hcounterpart : ms.filterMap (Move.counterpart abs)
      = (ms.filterMap (Move.counterpart some)).filterMap (Move.abstractCall abs) := by
    rw [List.filterMap_filterMap]
    congr 1
    funext m
    rcases m with ⟨t, k⟩ | t <;> rfl
  rw [hcounterpart]
  exact (accepted_sublist code c ms).filterMap _

/-- The first configuration is in a state of the second, and every thread of it refines its
counterpart. -/
structure Matched (same : μ → σ → σ → Prop) (Rel : σ → σ' → Prop) (I : ℓ → ℓ' → Prop)
    (c : LockConfig τ μ σ ℓ) (d : Config τ σ' ℓ') : Prop where
  shared : Rel c.shared d.shared
  thread : ∀ t, ∃ held, c.HoldsAll t held ∧ (c.thread t).suspended = [] ∧
    (c.thread t).current.Refines same Rel ∅ (fun l l' _ ↦ I l l') held (d.thread t) c.shared

variable {same : μ → σ → σ → Prop} {Rel : σ → σ' → Prop} {I : ℓ → ℓ' → Prop}
  {S : Service τ κ' σ' ℓ'} {code : τ → κ → ℓ → LockProgram μ σ ℓ ℓ} {abs : κ → Option κ'}
  {c : LockConfig τ μ σ ℓ} {d : Config τ σ' ℓ'}

namespace Matched

omit [DecidableEq τ] in
theorem start {s : σ} {s' : σ'} {l : ℓ} {l' : ℓ'} (hrel : Rel s s') (hI : I l l') :
    Matched same Rel I (.start s fun _ ↦ l : LockConfig τ μ σ ℓ) (.start s' l' : Config τ σ' ℓ') where
  shared := hrel
  thread _ := ⟨∅, fun _ ↦ by simp [LockConfig.Holds, LockConfig.start], rfl,
    Refines.done fun _ _ ↦ hI⟩

/-- A change to one thread and its counterpart, which keeps what the others hold. -/
theorem update (hsame : Protects same) (h : Matched same Rel I c d) {t : τ} {held held' : Finset μ}
    (hheld : c.HoldsAll t held) {c' : LockConfig τ μ σ ℓ} {d' : Config τ σ' ℓ'}
    (hthread : ∀ u ≠ t, c'.thread u = c.thread u) (hthread' : ∀ u ≠ t, d'.thread u = d.thread u)
    (hholds : ∀ u ≠ t, ∀ held, c.HoldsAll u held → c'.HoldsAll u held)
    (hframe : ∀ m ∉ held, same m c.shared c'.shared) (hrel : Rel c'.shared d'.shared)
    (hheld' : c'.HoldsAll t held') (hidle : (c'.thread t).suspended = [])
    (hrefines : (c'.thread t).current.Refines same Rel ∅ (fun l l' _ ↦ I l l') held' (d'.thread t)
      c'.shared) : Matched same Rel I c' d' := by
  refine ⟨hrel, fun u ↦ ?_⟩
  by_cases hut : u = t
  · subst hut
    exact ⟨held', hheld', hidle, hrefines⟩
  · obtain ⟨heldᵤ, hu, hsuspended, hcurrent⟩ := h.thread u
    refine ⟨heldᵤ, hholds u hut heldᵤ hu, ?_⟩
    rw [hthread u hut, hthread' u hut]
    exact ⟨hsuspended, hcurrent.keep hsame fun m hm ↦ hframe m (hu.disjoint hheld hut hm)⟩

/-- A call is a call of the counterpart, if there is one. -/
theorem call (hsame : Protects same) (hall : ∀ t k l s, S.allowed t k l s = true)
    (hcode : ∀ t k l l' s, I l l' → (code t k l).Refines same Rel ∅ (fun l l' _ ↦ I l l') ∅
      (S.counterpart abs t k l') s)
    (h : Matched same Rel I c d) (t : τ) (k : κ) :
    ∃ m : Option (Move τ κ'), Matched same Rel I (c.call code t k) (S.run d m.toList) ∧
      m.toList.filterMap (Move.counterpart some)
        = (c.begun (.call t k)).filterMap (Move.abstractCall abs) ∧
      S.accepted d m.toList = (m.toList.filterMap (Move.counterpart some)).map Prod.snd := by
  obtain ⟨held, hheld, hsuspended, hcurrent⟩ := h.thread t
  unfold LockConfig.call
  split
  case h_1 l ht =>
    have hbegun : c.begun (.call t k) = [(t, k)] := by
      simp [LockConfig.begun, LockConfig.accepts, ht]
    rw [ht] at hcurrent
    obtain ⟨rfl, l', hidle, hI⟩ := hcurrent c.shared (hsame.sameUnder_refl held _)
    have hrefines := hcode t k l l' c.shared hI
    have hupdate : ∀ d', d'.shared = d.shared → (∀ u ≠ t, d'.thread u = d.thread u) →
        d'.thread t = S.counterpart abs t k l' →
        Matched same Rel I (c.setThread t ⟨code t k l, []⟩) d' := by
      intro d' hshared hothers hthread
      refine h.update hsame hheld (fun u hut ↦ Function.update_of_ne hut ..) hothers
        (fun _ _ _ h ↦ h) (fun m _ ↦ hsame.refl m _) (hshared ▸ h.shared) hheld ?_ ?_
      · rw [LockConfig.setThread]
        simp only [Function.update_self]
      · rw [LockConfig.setThread]
        simp only [Function.update_self]
        rwa [hthread]
    rcases habs : abs k with _ | k'
    · refine ⟨none, hupdate d rfl (fun _ _ ↦ rfl) (by rw [Service.counterpart, habs]; exact hidle),
        ?_, rfl⟩
      simp [hbegun, Move.abstractCall, habs]
    · refine ⟨some (.call t k'), ?_, ?_, ?_⟩
      rotate_left
      · simp [hbegun, Move.abstractCall, Move.counterpart, habs]
      · simp [Service.accepted, Move.counterpart, hidle, hall]
      rw [Option.toList_some, ← List.nil_append [Move.call t k'], S.run_append_singleton, S.run_nil,
        S.move_call k' hidle (hall _ _ _ _)]
      refine hupdate _ rfl (fun u hut ↦ Function.update_of_ne hut ..) ?_
      rw [Service.counterpart, habs]
      exact Function.update_self ..
  case h_2 l next rest ht =>
    rw [ht] at hcurrent
    exact hcurrent.elim
  case h_3 hdone hcallback =>
    have hrefused : c.accepts t = false := by
      unfold LockConfig.accepts
      split
      · next l ht => exact (hdone l ht).elim
      · next l next rest ht => exact (hcallback l next rest ht).elim
      · rfl
    have hbegun : c.begun (.call t k) = [] := by simp [LockConfig.begun, hrefused]
    exact ⟨none, h, by rw [hbegun]; rfl, rfl⟩

/-- One step is one step of the counterpart, or none. -/
theorem step (hsame : Protects same) (h : Matched same Rel I c d) (t : τ) :
    ∃ m : Option (Move τ κ'), Matched same Rel I (c.step t) (S.run d m.toList) ∧
      m.toList.filterMap (Move.counterpart some) = [] ∧ S.accepted d m.toList = [] := by
  obtain ⟨held, hheld, hsuspended, hcurrent⟩ := h.thread t
  unfold LockConfig.step
  split
  case h_1 => exact ⟨none, h, rfl, rfl⟩
  case h_2 l next rest ht =>
    rw [ht] at hsuspended
    exact absurd hsuspended (by simp)
  case h_3 update next rest ht =>
    rw [ht] at hcurrent hsuspended
    obtain rfl : rest = [] := hsuspended
    obtain ⟨hframe, hrest⟩ := hcurrent c.shared (hsame.sameUnder_refl held _)
    have hupdate : ∀ d' : Config τ σ' ℓ', (∀ u ≠ t, d'.thread u = d.thread u) →
        Rel (update c.shared) d'.shared →
        (next c.shared).Refines same Rel ∅ (fun l l' _ ↦ I l l') held (d'.thread t)
          (update c.shared) →
        Matched same Rel I { c.setThread t ⟨next c.shared, []⟩ with shared := update c.shared } d' := by
      intro d' hothers hrel hrefines
      refine h.update hsame hheld (fun u hut ↦ Function.update_of_ne hut ..) hothers
        (fun _ _ _ h ↦ h) hframe hrel hheld ?_ ?_
      · simp only [LockConfig.setThread, Function.update_self]
      · simpa only [LockConfig.setThread, Function.update_self] using hrefines
    rcases hrest with ⟨hstutter, hrefines⟩ | ⟨update', next', hthread, hmatch⟩
    · exact ⟨none, hupdate d (fun _ _ ↦ rfl) (hstutter _ h.shared) hrefines, rfl, rfl⟩
    · refine ⟨some (.step t), ?_, rfl, rfl⟩
      rw [Option.toList_some, ← List.nil_append [Move.step t], S.run_append_singleton, S.run_nil,
        S.move_step hthread]
      refine hupdate _ (fun u hut ↦ Function.update_of_ne hut ..) (hmatch _ h.shared).1 ?_
      simpa only [Function.update_self] using (hmatch _ h.shared).2
  case h_4 m next rest ht =>
    rw [ht] at hcurrent hsuspended
    obtain rfl : rest = [] := hsuspended
    refine ⟨none, ?_, rfl, rfl⟩
    rw [Option.toList_none, S.run_nil]
    split
    case isTrue hfree =>
      change Matched same Rel I (c.taken t m ⟨next, []⟩) d
      refine h.update hsame hheld
        (fun u hut ↦ Function.update_of_ne hut ..) (fun _ _ ↦ rfl)
        (fun u hut held hu ↦ hu.taken_of_ne hut hfree) (fun m _ ↦ hsame.refl m _) h.shared
        hheld.taken_self ?_ ?_
      · simp only [LockConfig.taken, LockConfig.setThread, Function.update_self]
      · simpa only [LockConfig.taken, LockConfig.setThread, Function.update_self]
          using hcurrent c.shared (hsame.sameUnder_refl held _)
    case isFalse => exact h
  case h_5 m next rest ht =>
    rw [ht] at hcurrent hsuspended
    obtain rfl : rest = [] := hsuspended
    obtain ⟨hmem, hrefines⟩ := hcurrent c.shared (hsame.sameUnder_refl held _)
    have hmine : c.holder m = some t := (hheld m).mpr hmem
    refine ⟨none, ?_, rfl, rfl⟩
    rw [Option.toList_none, S.run_nil]
    change Matched same Rel I (c.released t m ⟨next, []⟩) d
    refine h.update hsame hheld
      (fun u hut ↦ Function.update_of_ne hut ..) (fun _ _ ↦ rfl)
      (fun u hut held hu ↦ hu.released_of_ne hut hmine) (fun m _ ↦ hsame.refl m _) h.shared
      hheld.released_self ?_ ?_
    · simp only [LockConfig.released, LockConfig.setThread, Function.update_self]
    · simpa only [LockConfig.released, LockConfig.setThread, Function.update_self] using hrefines
  case h_6 l next rest ht =>
    rw [ht] at hcurrent
    exact hcurrent.elim

/-- **Every run with mutexes is a run of the atomic service,** with the same calls, as far as they have
counterparts. Whenever the second run was somewhere, so was the first. -/
theorem run (hsame : Protects same) (hall : ∀ t k l s, S.allowed t k l s = true)
    (hcode : ∀ t k l l' s, I l l' → (code t k l).Refines same Rel ∅ (fun l l' _ ↦ I l l') ∅
      (S.counterpart abs t k l') s)
    (h : Matched same Rel I c d) (ms : List (Move τ κ)) :
    ∃ ms', Matched same Rel I (LockConfig.run code c ms) (S.run d ms') ∧
      (ms'.filterMap (Move.counterpart some)
          = (LockConfig.accepted code c ms).filterMap (Move.abstractCall abs) ∧
        S.accepted d ms' = (ms'.filterMap (Move.counterpart some)).map Prod.snd) ∧
      ∀ pre', pre' <+: ms' → ∃ pre, pre <+: ms ∧
        Matched same Rel I (LockConfig.run code c pre) (S.run d pre') := by
  induction ms using List.reverseRecOn with
  | nil =>
    refine ⟨[], h, ⟨rfl, rfl⟩, fun pre' hpre' ↦ ⟨[], List.prefix_rfl, ?_⟩⟩
    rwa [List.prefix_nil.mp hpre']
  | append_singleton ms m ih =>
    obtain ⟨ms', hmatched, ⟨hcalls, haccepted⟩, hbefore⟩ := ih
    have hmove : ∃ m' : Option (Move τ κ'),
        Matched same Rel I (LockConfig.run code c (ms ++ [m])) (S.run d (ms' ++ m'.toList)) ∧
        m'.toList.filterMap (Move.counterpart some)
          = ((LockConfig.run code c ms).begun m).filterMap (Move.abstractCall abs) ∧
        S.accepted (S.run d ms') m'.toList
          = (m'.toList.filterMap (Move.counterpart some)).map Prod.snd := by
      have hrun : LockConfig.run code c (ms ++ [m])
          = LockConfig.move code (LockConfig.run code c ms) m := List.foldl_append
      simp only [hrun, S.run_append]
      rcases m with ⟨t, k⟩ | t
      · exact hmatched.call hsame hall hcode t k
      · obtain ⟨m', hstep, hnone, hnone'⟩ := hmatched.step hsame t
        exact ⟨m', hstep, hnone, by rw [hnone, hnone']; rfl⟩
    obtain ⟨m', hafter, hcall, haccept⟩ := hmove
    refine ⟨ms' ++ m'.toList, hafter, ⟨?_, ?_⟩, fun pre' hpre' ↦ ?_⟩
    · rw [List.filterMap_append, hcalls, hcall, LockConfig.accepted_append_singleton,
        List.filterMap_append]
    · rw [S.accepted_append, haccepted, haccept, List.filterMap_append, List.map_append]
    · rcases m' with _ | m'
      · rw [Option.toList_none, List.append_nil] at hpre'
        obtain ⟨pre, hpre, hmatched⟩ := hbefore pre' hpre'
        exact ⟨pre, hpre.trans (List.prefix_append _ _), hmatched⟩
      · rcases List.prefix_concat_iff.mp hpre' with rfl | hpre'
        · exact ⟨ms ++ [m], List.prefix_rfl, hafter⟩
        · obtain ⟨pre, hpre, hmatched⟩ := hbefore pre' hpre'
          exact ⟨pre, hpre.trans (List.prefix_append _ _), hmatched⟩

end Matched

end Matched

end Concurrency
