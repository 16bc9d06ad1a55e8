import Mathlib.Data.Finmap
import Mathlib.Order.Basic

/-!
# Maps of disjoint ranges

A finite map from base addresses to values that have a length, read as a set of half-open ranges.
`RangeMap` carries the facts that make it one: no range is empty, none touches the null address or
the top of the address space, and no two overlap. A range can be put only where it is `Free`, so an
overlapping map cannot be built.

Lookup by address is by the last entry at or below the address. On disjoint ranges this finds the
range that contains the address, if there is one.
-/

open Std

namespace Ranges

/-! ## The last entry at or below a key -/

section Floor

variable {κ ν : Type} {cmp : κ → κ → Ordering} [TransCmp cmp]

/-- The last entry at or below a key. -/
def floorEntry (m : ExtTreeMap κ ν cmp) (a : κ) : Option (κ × ν) :=
  (m.toList.filter fun e ↦ (cmp e.1 a).isLE).getLast?

variable [LawfulEqCmp cmp] {m : ExtTreeMap κ ν cmp} {a k : κ} {v : ν}

/-- The last entry is an entry at or below the key, and no other such entry is above it. -/
theorem floorEntry_spec (h : floorEntry m a = some (k, v)) :
    m[k]? = some v ∧ (cmp k a).isLE ∧
      ∀ k' v', m[k']? = some v' → (cmp k' a).isLE → (cmp k' k).isLE := by
  obtain ⟨below, hlist⟩ := List.getLast?_eq_some_iff.mp h
  have hmem : ∀ e, e ∈ m.toList ∧ (cmp e.1 a).isLE ↔ e ∈ below ++ [(k, v)] := by
    intro e
    rw [← hlist, List.mem_filter]
  have hself := (hmem (k, v)).mpr (List.mem_append_right _ List.mem_cons_self)
  refine ⟨ExtTreeMap.mem_toList_iff_getElem?_eq_some.mp hself.1, hself.2, fun k' v' hk' hle ↦ ?_⟩
  have hordered : (below ++ [(k, v)]).Pairwise fun e e' ↦ cmp e.1 e'.1 = .lt := by
    rw [← hlist]
    exact ExtTreeMap.ordered_keys_toList.filter _
  have hk := (hmem (k', v')).mp ⟨ExtTreeMap.mem_toList_iff_getElem?_eq_some.mpr hk', hle⟩
  rcases List.mem_append.mp hk with hbelow | hlast
  · have := (List.pairwise_append.mp hordered).2.2 _ hbelow _ List.mem_cons_self
    exact Ordering.isLE_of_eq_lt this
  · rw [List.mem_singleton, Prod.mk.injEq] at hlast
    rw [hlast.1]
    exact ReflCmp.isLE_rfl

theorem floorEntry_eq_some_iff :
    floorEntry m a = some (k, v) ↔ m[k]? = some v ∧ (cmp k a).isLE ∧
      ∀ k' v', m[k']? = some v' → (cmp k' a).isLE → (cmp k' k).isLE := by
  refine ⟨floorEntry_spec, fun ⟨hk, hle, hmax⟩ ↦ ?_⟩
  cases hfloor : floorEntry m a with
  | none =>
    rw [floorEntry, List.getLast?_eq_none_iff, List.filter_eq_nil_iff] at hfloor
    exact absurd hle (hfloor (k, v) (ExtTreeMap.mem_toList_iff_getElem?_eq_some.mpr hk))
  | some e =>
    obtain ⟨hk', hle', hmax'⟩ := floorEntry_spec (k := e.1) (v := e.2) hfloor
    have heq : e.1 = k := LawfulEqCmp.eq_of_compare
      (OrientedCmp.isLE_antisymm (hmax _ _ hk' hle') (hmax' _ _ hk hle))
    rw [heq] at hk'
    rw [← heq, ← Option.some.inj (hk'.symm.trans hk)]

end Floor

section Entries

variable {ν : Type} {m : ExtTreeMap ℕ ν} {b b' : ℕ} {v : ν}

theorem getElem?_insert_nat : (m.insert b v)[b']? = if b = b' then some v else m[b']? := by
  simp [ExtTreeMap.getElem?_insert]

theorem getElem?_erase_nat : (m.erase b)[b']? = if b = b' then none else m[b']? := by
  simp [ExtTreeMap.getElem?_erase]

end Entries

/-! ## Disjoint ranges -/

/-- Two ranges, given by base and length, share no address. -/
def Apart (b n b' n' : ℕ) : Prop := b + n ≤ b' ∨ b' + n' ≤ b

instance (b n b' n' : ℕ) : Decidable (Apart b n b' n') := inferInstanceAs (Decidable (_ ∨ _))

/-- Finitely many disjoint non-empty ranges in the addresses from `1` to `top`, with their values. -/
structure RangeMap (ν : Type) (len : ν → ℕ) (top : ℕ) where
  entries : ExtTreeMap ℕ ν
  nonnull : ∀ {b : ℕ} {v : ν}, entries[b]? = some v → 0 < b
  nonempty : ∀ {b : ℕ} {v : ν}, entries[b]? = some v → 0 < len v
  below : ∀ {b : ℕ} {v : ν}, entries[b]? = some v → b + len v < top
  apart : ∀ {b b' : ℕ} {v v' : ν}, entries[b]? = some v → entries[b']? = some v' → b ≠ b' →
    Apart b (len v) b' (len v')

namespace RangeMap

variable {ν : Type} {len : ν → ℕ} {top : ℕ}

/-- The value of the range with a base. -/
def get? (m : RangeMap ν len top) (b : ℕ) : Option ν := m.entries[b]?

/-- No range at all. -/
def empty : RangeMap ν len top where
  entries := ∅
  nonnull h := absurd h (by simp)
  nonempty h := absurd h (by simp)
  below h := absurd h (by simp)
  apart h := absurd h (by simp)

@[simp] theorem get?_empty (b : ℕ) : (empty : RangeMap ν len top).get? b = none := by
  simp [get?, empty]

@[ext] theorem ext {m m' : RangeMap ν len top} (h : ∀ b, m.get? b = m'.get? b) : m = m' := by
  have hentries : m.entries = m'.entries := ExtTreeMap.ext_getElem? h
  cases m
  cases m'
  congr

/-- The range is legal, and no range of the map, other than the one based at `b`, overlaps it. -/
def Free (m : RangeMap ν len top) (b n : ℕ) : Prop :=
  (0 < b ∧ 0 < n ∧ b + n < top) ∧ ∀ e ∈ m.entries.toList, b ≠ e.1 → Apart b n e.1 (len e.2)

instance (m : RangeMap ν len top) (b n : ℕ) : Decidable (m.Free b n) :=
  inferInstanceAs (Decidable (_ ∧ _))

theorem Free.apart {m : RangeMap ν len top} {b n b' : ℕ} {v' : ν} (h : m.Free b n)
    (hv' : m.get? b' = some v') (hne : b ≠ b') : Apart b n b' (len v') :=
  h.2 (b', v') (ExtTreeMap.mem_toList_iff_getElem?_eq_some.mpr hv') hne

theorem free_iff {m : RangeMap ν len top} {b n : ℕ} : m.Free b n ↔
    (0 < b ∧ 0 < n ∧ b + n < top) ∧
      ∀ b' l', (m.get? b').map len = some l' → b ≠ b' → Apart b n b' l' := by
  refine and_congr_right fun _ ↦ ⟨fun h b' l' hl' hne ↦ ?_, fun h e he hne ↦ ?_⟩
  · obtain ⟨v', hv', rfl⟩ := Option.map_eq_some_iff.mp hl'
    exact h (b', v') (ExtTreeMap.mem_toList_iff_getElem?_eq_some.mpr hv') hne
  · have hv : m.get? e.1 = some e.2 := ExtTreeMap.mem_toList_iff_getElem?_eq_some.mp he
    exact h e.1 (len e.2) (by rw [hv, Option.map_some]) hne

/-- Whether a range is free is decided by the bases and the lengths. -/
theorem free_congr {μ : Type} {len' : μ → ℕ} {m : RangeMap ν len top} {m' : RangeMap μ len' top}
    (h : ∀ b, (m.get? b).map len = (m'.get? b).map len') {b n : ℕ} : m.Free b n ↔ m'.Free b n := by
  rw [free_iff, free_iff]
  simp only [h]

/-- Put a range in place of the one with the same base, if any. -/
def put (m : RangeMap ν len top) (b : ℕ) (v : ν) (h : m.Free b (len v)) : RangeMap ν len top where
  entries := m.entries.insert b v
  nonnull {b' v'} h' := by
    rw [getElem?_insert_nat] at h'
    split at h'
    · next heq => exact heq ▸ h.1.1
    · exact m.nonnull h'
  nonempty {b' v'} h' := by
    rw [getElem?_insert_nat] at h'
    split at h'
    · exact Option.some.inj h' ▸ h.1.2.1
    · exact m.nonempty h'
  below {b' v'} h' := by
    rw [getElem?_insert_nat] at h'
    split at h'
    · next heq => exact heq ▸ Option.some.inj h' ▸ h.1.2.2
    · exact m.below h'
  apart {b₁ b₂ v₁ v₂} h₁ h₂ hne := by
    rw [getElem?_insert_nat] at h₁ h₂
    split at h₁ <;> split at h₂
    · next heq₁ heq₂ => exact absurd (heq₁.symm.trans heq₂) hne
    · next heq₁ _ =>
      subst heq₁
      exact Option.some.inj h₁ ▸ h.apart h₂ hne
    · next _ heq₂ =>
      subst heq₂
      exact (Option.some.inj h₂ ▸ h.apart h₁ hne.symm).symm
    · exact m.apart h₁ h₂ hne

/-- Remove the range with a base. -/
def erase (m : RangeMap ν len top) (b : ℕ) : RangeMap ν len top where
  entries := m.entries.erase b
  nonnull h := by
    rw [getElem?_erase_nat] at h
    exact m.nonnull (Option.ite_none_left_eq_some.mp h).2
  nonempty h := by
    rw [getElem?_erase_nat] at h
    exact m.nonempty (Option.ite_none_left_eq_some.mp h).2
  below h := by
    rw [getElem?_erase_nat] at h
    exact m.below (Option.ite_none_left_eq_some.mp h).2
  apart h h' hne := by
    rw [getElem?_erase_nat] at h h'
    exact m.apart (Option.ite_none_left_eq_some.mp h).2 (Option.ite_none_left_eq_some.mp h').2 hne

variable {m : RangeMap ν len top} {a b b' : ℕ} {v : ν}

theorem get?_put (h : m.Free b (len v)) :
    (m.put b v h).get? b' = if b = b' then some v else m.get? b' := getElem?_insert_nat

theorem get?_erase : (m.erase b).get? b' = if b = b' then none else m.get? b' := getElem?_erase_nat

theorem get?_erase_of_ne (hne : b ≠ b') : (m.erase b).get? b' = m.get? b' := by
  rw [get?_erase, if_neg hne]

/-- The number of ranges. -/
def size (m : RangeMap ν len top) : ℕ := m.entries.size

theorem size_put (h : m.Free b (len v)) (hnone : m.get? b = none) :
    (m.put b v h).size = m.size + 1 := by
  have hmem : m.entries.contains b = false := by
    rw [ExtTreeMap.contains_eq_isSome_getElem?]
    exact congrArg Option.isSome hnone
  rw [size, put, ExtTreeMap.size_insert, hmem]
  rfl

theorem size_erase (hv : m.get? b = some v) : (m.erase b).size + 1 = m.size := by
  have hmem : m.entries.contains b = true := by
    rw [ExtTreeMap.contains_eq_isSome_getElem?]
    exact congrArg Option.isSome hv
  have hpos : m.entries.size ≠ 0 := by
    intro hzero
    rw [ExtTreeMap.eq_empty_iff_size_eq_zero.mpr hzero] at hmem
    simp at hmem
  rw [size, erase, ExtTreeMap.size_erase, if_pos hmem]
  exact Nat.sub_add_cancel (Nat.pos_of_ne_zero hpos)

/-- The last entry at or below an address, if it reaches the address, is the range that contains
the address. The entries may hold more or less than the values, as long as they know the lengths. -/
theorem floorEntry_filter_eq_some_iff {μ : Type} {objs : ExtTreeMap ℕ μ} (size : μ → ℕ)
    (hobjs : ∀ b : ℕ, (objs[b]?).map size = (m.get? b).map len) {n : μ} :
    ((floorEntry objs a).filter fun e ↦ a < e.1 + size e.2) = some (b, n) ↔
      objs[b]? = some n ∧ b ≤ a ∧ a < b + size n := by
  rw [Option.filter_eq_some_iff, floorEntry_eq_some_iff, decide_eq_true_eq]
  simp only [Nat.isLE_compare]
  constructor
  · rintro ⟨⟨hb, hle, -⟩, hlt⟩
    exact ⟨hb, hle, hlt⟩
  · rintro ⟨hb, hle, hlt⟩
    refine ⟨⟨hb, hle, fun b' n' hb' hle' ↦ ?_⟩, hlt⟩
    have hrange : ∀ {b : ℕ} {n : μ}, objs[b]? = some n → ∃ v, m.get? b = some v ∧ len v = size n :=
      fun hb ↦ Option.map_eq_some_iff.mp ((hobjs _).symm.trans (congrArg _ hb))
    obtain ⟨v, hv, hlen⟩ := hrange hb
    obtain ⟨v', hv', hlen'⟩ := hrange hb'
    -- a base between `b` and the address would lie inside the range of `b`
    by_contra hgt
    rcases m.apart hv hv' (by omega) with h | h <;> omega

/-- The range that contains an address, found in a map from bases to lengths. -/
theorem floorEntry_filter_iff {objs : ExtTreeMap ℕ ℕ}
    (hobjs : ∀ b : ℕ, objs[b]? = (m.get? b).map len) {n : ℕ} :
    ((floorEntry objs a).filter fun e ↦ a < e.1 + e.2) = some (b, n) ↔
      (m.get? b).map len = some n ∧ b ≤ a ∧ a < b + n := by
  rw [← hobjs]
  exact floorEntry_filter_eq_some_iff id fun b ↦ by rw [Option.map_id_apply, hobjs]

/-- The range that contains an address. -/
def at? (m : RangeMap ν len top) (a : ℕ) : Option (ℕ × ν) :=
  (floorEntry m.entries a).filter fun e ↦ a < e.1 + len e.2

theorem at?_eq_some_iff : m.at? a = some (b, v) ↔ m.get? b = some v ∧ b ≤ a ∧ a < b + len v :=
  floorEntry_filter_eq_some_iff len fun _ ↦ rfl

end RangeMap

end Ranges
