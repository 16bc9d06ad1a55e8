import UnsafePerf.Text.Lines
import Mathlib.Data.Int.Log
import Mathlib.Data.Rat.Floor

/-!
# Numbers as text

Decimal texts of integers, and of a double-precision number with two decimals. A double is the
rational number it stands for; `toF64` is the double nearest to a rational number, and an operation
on doubles is the operation on rationals followed by `toF64`. Only non-negative numbers in the range
of the normal doubles occur.
-/

namespace Text

/-- A natural number in decimal. -/
def ofNat (n : ℕ) : Text := Nat.toDigits 10 n

/-- An integer in decimal. -/
def ofInt : ℤ → Text
  | .ofNat n => ofNat n
  | .negSucc n => '-' :: ofNat (n + 1)

/-- The nearest natural number, the even one of two. -/
def roundHalfEven (q : ℚ) : ℕ :=
  let n := ⌊q⌋₊
  if q - n < 1 / 2 then n else if 1 / 2 < q - n then n + 1 else n + n % 2

/-- The nearest double. -/
def toF64 (q : ℚ) : ℚ :=
  let e := Int.log 2 q - 52
  roundHalfEven (q / 2 ^ e) * 2 ^ e

/-- A double with two decimals. -/
def fixed2 (q : ℚ) : Text :=
  let n := roundHalfEven (q * 100)
  ofNat (n / 100) ++ ['.', Nat.digitChar (n / 10 % 10), Nat.digitChar (n % 10)]

theorem ofNat_injective : Function.Injective ofNat :=
  Function.LeftInverse.injective fun _ ↦ Nat.ofDigitChars_toDigits (by decide) (by decide)

theorem isDigit_of_mem_ofNat {n : ℕ} {c : Char} (hc : c ∈ ofNat n) : c.isDigit = true :=
  Nat.isDigit_of_mem_toDigits (by decide) (by decide) hc

theorem ofInt_injective : Function.Injective ofInt := by
  have hsign : ∀ m n : ℕ, ofNat m ≠ '-' :: ofNat n := fun m n h ↦
    absurd (isDigit_of_mem_ofNat (h ▸ List.mem_cons_self)) (by decide)
  intro i j h
  cases i with
  | ofNat m =>
    cases j with
    | ofNat n => exact congrArg Int.ofNat (ofNat_injective h)
    | negSucc n => exact absurd h (hsign m (n + 1))
  | negSucc m =>
    cases j with
    | ofNat n => exact absurd h.symm (hsign n (m + 1))
    | negSucc n =>
      have hsame : m + 1 = n + 1 := ofNat_injective ((List.cons_inj_right '-').mp h)
      exact congrArg Int.negSucc (Nat.succ_injective hsame)

/-- The number at the end of a line can be told. -/
theorem ofNat_line_prefix_iff {m n : ℕ} {l : Text} :
    ofNat m ++ ['\n'] <+: ofNat n ++ '\n' :: l ↔ m = n := by
  have hdigits : ∀ k : ℕ, ∀ cs : Text,
      (ofNat k ++ '\n' :: cs).takeWhile Char.isDigit = ofNat k := by
    intro k cs
    have hall : ∀ c ∈ ofNat k, Char.isDigit c = true := fun _ hc ↦ isDigit_of_mem_ofNat hc
    rw [List.takeWhile_append_of_pos hall]
    simp [show Char.isDigit '\n' = false from rfl]
  constructor
  · rintro ⟨cs, hcs⟩
    rw [List.append_assoc] at hcs
    have htake := congrArg (List.takeWhile Char.isDigit) hcs
    exact ofNat_injective ((hdigits m cs).symm.trans (htake.trans (hdigits n l)))
  · rintro rfl
    exact ⟨l, by simp⟩

theorem isSpace_of_isDigit {c : Char} (h : c.isDigit = true) : isSpace c = false := by
  rw [Char.isDigit, Bool.and_eq_true, decide_eq_true_eq, decide_eq_true_eq] at h
  have hlow : 48 ≤ c.toNat := h.1
  have hhigh : c.toNat ≤ 57 := h.2
  simp only [isSpace]
  grind

theorem solid_ofNat (n : ℕ) : Solid (ofNat n) :=
  fun _ hc ↦ isSpace_of_isDigit (isDigit_of_mem_ofNat hc)

theorem solid_ofInt (i : ℤ) : Solid (ofInt i) := by
  cases i with
  | ofNat n => exact solid_ofNat n
  | negSucc n => exact Solid.append (l := ['-']) (by decide) (solid_ofNat _)

theorem solid_fixed2 (q : ℚ) : Solid (fixed2 q) := by
  have hdigit : ∀ n < 10, isSpace (Nat.digitChar n) = false := by decide
  refine (solid_ofNat _).append fun c hc ↦ ?_
  simp only [List.mem_cons, List.not_mem_nil, or_false] at hc
  rcases hc with rfl | rfl | rfl
  · rfl
  · exact hdigit _ (Nat.mod_lt _ (by decide))
  · exact hdigit _ (Nat.mod_lt _ (by decide))

/-! ## A number at the end -/

section Last

variable {α : Type} {a : α} {xs ys xs' ys' : List α}

/-- A list can be cut at the last occurrence of an element. -/
theorem append_cons_inj (h : a ∉ ys) (h' : a ∉ ys') :
    xs ++ a :: ys = xs' ++ a :: ys' ↔ xs = xs' ∧ ys = ys' := by
  refine ⟨fun heq ↦ ?_, fun ⟨hxs, hys⟩ ↦ by rw [hxs, hys]⟩
  rcases List.append_eq_append_iff.mp heq with ⟨zs, rfl, hys⟩ | ⟨zs, rfl, hys⟩
  · rcases List.cons_eq_append_iff.mp hys with ⟨rfl, htail⟩ | ⟨zs, rfl, rfl⟩
    · exact ⟨(List.append_nil xs).symm, ((List.cons_inj_right a).mp htail).symm⟩
    · exact absurd (List.mem_append_right zs List.mem_cons_self) h
  · rcases List.cons_eq_append_iff.mp hys with ⟨rfl, htail⟩ | ⟨zs, rfl, rfl⟩
    · exact ⟨List.append_nil xs', (List.cons_inj_right a).mp htail⟩
    · exact absurd (List.mem_append_right zs List.mem_cons_self) h'

end Last

theorem colon_notMem_ofInt (i : ℤ) : ':' ∉ ofInt i := by
  have hdigits : ∀ n : ℕ, ':' ∉ ofNat n := fun n h ↦
    absurd (isDigit_of_mem_ofNat h) (by decide)
  cases i with
  | ofNat n => exact hdigits n
  | negSucc n => exact List.not_mem_cons_of_ne_of_not_mem (by decide) (hdigits _)

/-- A text and the number after its last colon can be told. -/
theorem append_colon_ofInt_inj {l l' : Text} {i j : ℤ} :
    l ++ ':' :: ofInt i = l' ++ ':' :: ofInt j ↔ l = l' ∧ i = j :=
  (append_cons_inj (colon_notMem_ofInt i) (colon_notMem_ofInt j)).trans
    (and_congr_right' ofInt_injective.eq_iff)

end Text
