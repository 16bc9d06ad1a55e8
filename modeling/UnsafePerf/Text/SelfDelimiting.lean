import UnsafePerf.Text.Decimal

/-!
# Texts that say where they end

What is appended to a file can be read again only if each piece says where it ends. `Tells text f`
means that the text of a value, followed by anything at all, determines what `f` says of the value and
where the rest begins. Such texts are put together from labels and terminated numbers. A part that is
computed from what the text has already told, such as a rounded percentage, adds nothing and does no
harm (`Tells.append_of_factor`).

Several writers may append to one file, each a text and then a line end, in steps of their own. Then a
line end need not follow its text. The file still determines what was appended and in which order
(`pieces_injective`), provided a line end cannot be taken for the beginning of a text.
-/

namespace Text

variable {α β γ : Type}

/-- The text of a value determines what `f` says of it, and where the text ends. -/
def Tells (text : α → Text) (f : α → β) : Prop :=
  ∀ (a b : α) (l l' : Text), text a ++ l = text b ++ l' → f a = f b ∧ l = l'

namespace Tells

variable {text e : α → Text} {f : α → β} {g : α → γ}

theorem const (l : Text) : Tells (fun _ : α ↦ l) fun _ ↦ () :=
  fun _ _ _ _ h ↦ ⟨rfl, List.append_cancel_left h⟩

theorem append (h : Tells text f) (h' : Tells e g) :
    Tells (fun a ↦ text a ++ e a) fun a ↦ (f a, g a) := by
  intro a b l l' heq
  rw [List.append_assoc, List.append_assoc] at heq
  obtain ⟨hf, hrest⟩ := h _ _ _ _ heq
  obtain ⟨hg, hl⟩ := h' _ _ _ _ hrest
  exact ⟨Prod.ext hf hg, hl⟩

/-- A part that what has been told determines. -/
theorem append_of_factor (h : Tells text f) (hdet : ∀ a b, f a = f b → e a = e b) :
    Tells (fun a ↦ text a ++ e a) f := by
  intro a b l l' heq
  rw [List.append_assoc, List.append_assoc] at heq
  obtain ⟨hf, hrest⟩ := h _ _ _ _ heq
  rw [hdet a b hf] at hrest
  exact ⟨hf, List.append_cancel_left hrest⟩

theorem prepend (l : Text) (h : Tells text f) : Tells (fun a ↦ l ++ text a) f := by
  intro a b l₁ l₂ heq
  rw [List.append_assoc, List.append_assoc] at heq
  exact h _ _ _ _ (List.append_cancel_left heq)

theorem of_eq (h : Tells text f) (hg : ∀ a b, f a = f b → g a = g b) : Tells text g :=
  fun _ _ _ _ heq ↦
    have hf := h _ _ _ _ heq
    ⟨hg _ _ hf.1, hf.2⟩

end Tells

/-! ## Terminated texts -/

/-- A text without the terminator can be told from what comes after the terminator. -/
theorem tells_terminated {c : Char} {text : α → Text} {f : α → β} (hc : ∀ a, c ∉ text a)
    (hf : ∀ a b, text a = text b → f a = f b) : Tells (fun a ↦ text a ++ [c]) f := by
  intro a b l l' heq
  rw [List.append_assoc, List.append_assoc, List.singleton_append, List.singleton_append] at heq
  rcases List.append_eq_append_iff.mp heq with ⟨rest, hb, hrest⟩ | ⟨rest, ha, hrest⟩
  · rcases List.cons_eq_append_iff.mp hrest with ⟨rfl, htail⟩ | ⟨rest', rfl, -⟩
    · rw [List.append_nil] at hb
      exact ⟨hf a b hb.symm, ((List.cons_inj_right c).mp htail).symm⟩
    · exact absurd (hb ▸ List.mem_append_right _ List.mem_cons_self) (hc b)
  · rcases List.cons_eq_append_iff.mp hrest with ⟨rfl, htail⟩ | ⟨rest', rfl, -⟩
    · rw [List.append_nil] at ha
      exact ⟨hf a b ha, (List.cons_inj_right c).mp htail⟩
    · exact absurd (ha ▸ List.mem_append_right _ List.mem_cons_self) (hc a)

theorem notMem_ofNat {c : Char} (hc : c.isDigit = false) (n : ℕ) : c ∉ ofNat n := fun h ↦
  absurd (isDigit_of_mem_ofNat h) (by rw [hc]; exact Bool.false_ne_true)

/-- A number is told by what follows it, if that begins with no digit. -/
theorem tells_number {c : Char} (hc : c.isDigit = false) (label : Text) (f : α → ℕ) :
    Tells (fun a ↦ label ++ (ofNat (f a) ++ [c])) f :=
  Tells.prepend label (tells_terminated (fun a ↦ notMem_ofNat hc (f a)) fun _ _ h ↦
    ofNat_injective h)

/-- Lines with a label and a number each. -/
def labelledLines (fields : List (Text × (α → ℕ))) (a : α) : Text :=
  fields.flatMap fun field ↦ field.1 ++ (ofNat (field.2 a) ++ "\n".toList)

theorem tells_labelledLines (fields : List (Text × (α → ℕ))) :
    Tells (labelledLines fields) fun a ↦ fields.map fun field ↦ field.2 a := by
  induction fields with
  | nil => exact (Tells.const []).of_eq fun _ _ _ ↦ rfl
  | cons field fields ih =>
    have hcons := (tells_number (c := '\n') rfl field.1 field.2).append ih
    exact hcons.of_eq fun a b h ↦ by
      rw [Prod.mk.injEq] at h
      rw [List.map_cons, List.map_cons, h.1, h.2]

/-! ## Lists of numbers -/

/-- Numbers with a separator between them. -/
def joinNumbers (separator : Text) (ns : List ℕ) : Text := separator.intercalate (ns.map ofNat)

section Join

variable {separator : Text}

theorem ofNat_ne_nil (n : ℕ) : ofNat n ≠ [] := Nat.toDigits_ne_nil

/-- What follows the first number. -/
def afterFirst (separator : Text) (ns : List ℕ) : Text :=
  if ns = [] then [] else separator ++ joinNumbers separator ns

theorem joinNumbers_cons (n : ℕ) (ns : List ℕ) :
    joinNumbers separator (n :: ns) = ofNat n ++ afterFirst separator ns := by
  rw [afterFirst]
  rcases ns with _ | ⟨m, ns⟩
  · rw [joinNumbers, List.map_singleton, List.intercalate_singleton, if_pos rfl, List.append_nil]
  · rw [joinNumbers, List.map_cons, List.map_cons, List.intercalate_cons_cons, if_neg (by simp),
      List.append_assoc]
    rfl

theorem joinNumbers_eq_nil_iff {ns : List ℕ} : joinNumbers separator ns = [] ↔ ns = [] := by
  constructor
  · intro h
    rcases ns with _ | ⟨n, ns⟩
    · rfl
    · rw [joinNumbers_cons, List.append_eq_nil_iff] at h
      exact absurd h.1 (ofNat_ne_nil n)
  · rintro rfl
    rfl

theorem afterFirst_eq_nil_iff (hsep : separator ≠ []) {ns : List ℕ} :
    afterFirst separator ns = [] ↔ ns = [] := by
  rw [afterFirst]
  split
  case isTrue h => simp only [h]
  case isFalse h => simp only [List.append_eq_nil_iff, hsep, h, false_and]

theorem notMem_joinNumbers {c : Char} (hc : c.isDigit = false) (hsep : c ∉ separator)
    (ns : List ℕ) : c ∉ joinNumbers separator ns := by
  induction ns with
  | nil => exact List.not_mem_nil
  | cons n ns ih =>
    rw [joinNumbers_cons, List.mem_append, not_or, afterFirst]
    refine ⟨notMem_ofNat hc n, ?_⟩
    split
    · exact List.not_mem_nil
    · rw [List.mem_append, not_or]
      exact ⟨hsep, ih⟩

/-- The digits a text begins with. -/
theorem takeWhile_digits {l : Text} (n : ℕ) (hl : ∀ c ∈ l.head?, c.isDigit = false) :
    (ofNat n ++ l).takeWhile Char.isDigit = ofNat n := by
  rw [List.takeWhile_append_of_pos fun _ hc ↦ isDigit_of_mem_ofNat hc]
  rcases l with _ | ⟨c, l⟩
  · rw [List.takeWhile_nil, List.append_nil]
  · rw [List.takeWhile_cons_of_neg (by simpa using hl c rfl), List.append_nil]

/-- What comes after a number begins with no digit. -/
theorem isDigit_head_afterFirst (hsep : separator ≠ [])
    (hhead : ∀ c ∈ separator.head?, c.isDigit = false) (ns : List ℕ) :
    ∀ c ∈ (afterFirst separator ns).head?, c.isDigit = false := by
  intro c hc
  rw [afterFirst] at hc
  split at hc
  · exact absurd hc (by simp)
  · refine hhead c ?_
    rwa [List.head?_append_of_ne_nil _ hsep] at hc

theorem joinNumbers_injective (hsep : separator ≠ [])
    (hhead : ∀ c ∈ separator.head?, c.isDigit = false) :
    Function.Injective (joinNumbers separator) := by
  intro ns ms heq
  induction ns generalizing ms with
  | nil => exact (joinNumbers_eq_nil_iff.mp heq.symm).symm
  | cons n ns ih =>
    rcases ms with _ | ⟨m, ms⟩
    · exact joinNumbers_eq_nil_iff.mp heq
    · rw [joinNumbers_cons, joinNumbers_cons] at heq
      have hdigits := congrArg (List.takeWhile Char.isDigit) heq
      rw [takeWhile_digits n (isDigit_head_afterFirst hsep hhead ns),
        takeWhile_digits m (isDigit_head_afterFirst hsep hhead ms)] at hdigits
      obtain rfl := ofNat_injective hdigits
      have hrest := List.append_cancel_left heq
      have hnil : ns = [] ↔ ms = [] := by
        rw [← afterFirst_eq_nil_iff hsep, hrest, afterFirst_eq_nil_iff hsep]
      by_cases hns : ns = []
      · rw [hns, hnil.mp hns]
      · rw [afterFirst, afterFirst, if_neg hns, if_neg fun hms ↦ hns (hnil.mpr hms)] at hrest
        rw [ih (List.append_cancel_left hrest)]

end Join

/-! ## Texts and line ends in any order -/

section Pieces

/-- What is appended in one step: the text of a value, or a line end. -/
def piece (text : α → Text) : Option α → Text
  | some a => text a
  | none => "\n".toList

/-- A line end is not the beginning of a text: no text begins with one, or all begin with one and
something else after it. -/
def Marked (text : α → Text) : Prop :=
  (∀ a, ∃ c l, c ≠ '\n' ∧ text a = c :: l) ∨ ∀ a, ∃ c l, c ≠ '\n' ∧ text a = '\n' :: c :: l

variable {text : α → Text}

theorem piece_ne_nil (h : Marked text) (p : Option α) : piece text p ≠ [] := by
  rcases p with _ | a
  · exact List.cons_ne_nil _ _
  · change text a ≠ []
    rcases h with h | h
    · obtain ⟨c, l, -, ha⟩ := h a
      rw [ha]
      exact List.cons_ne_nil _ _
    · obtain ⟨c, l, -, ha⟩ := h a
      rw [ha]
      exact List.cons_ne_nil _ _

/-- What follows a line end does not make a text of it. -/
theorem newline_ne_text (h : Marked text) (ps : List (Option α)) (b : α) (l : Text) :
    '\n' :: ps.flatMap (piece text) ≠ text b ++ l := by
  intro heq
  rcases h with h | h
  · obtain ⟨c, l', hc, hb⟩ := h b
    rw [hb, List.cons_append, List.cons.injEq] at heq
    exact hc heq.1.symm
  · obtain ⟨c, l', hc, hb⟩ := h b
    rw [hb, List.cons_append, List.cons_append, List.cons.injEq] at heq
    -- the next piece begins with a line end, whatever it is
    rcases ps with _ | ⟨_ | a, ps⟩
    · exact absurd heq.2 (by simp)
    · rw [List.flatMap_cons] at heq
      exact hc (List.cons.inj heq.2).1.symm
    · obtain ⟨c', l'', -, ha⟩ := h a
      rw [List.flatMap_cons, piece, ha] at heq
      exact hc (List.cons.inj heq.2).1.symm

/-- **The pieces of a file** can be told from its contents. -/
theorem pieces_injective (h : Tells text id) (hmarked : Marked text) :
    Function.Injective fun ps : List (Option α) ↦ ps.flatMap (piece text) := by
  intro ps qs heq
  dsimp only at heq
  induction ps generalizing qs with
  | nil =>
    rcases qs with _ | ⟨q, qs⟩
    · rfl
    · rw [List.flatMap_nil, List.flatMap_cons, eq_comm, List.append_eq_nil_iff] at heq
      exact absurd heq.1 (piece_ne_nil hmarked q)
  | cons p ps ih =>
    rcases qs with _ | ⟨q, qs⟩
    · rw [List.flatMap_nil, List.flatMap_cons, List.append_eq_nil_iff] at heq
      exact absurd heq.1 (piece_ne_nil hmarked p)
    · rw [List.flatMap_cons, List.flatMap_cons] at heq
      rcases p with _ | a <;> rcases q with _ | b
      · rw [ih (List.append_cancel_left heq)]
      · exact absurd heq (newline_ne_text hmarked ps b _)
      · exact absurd heq.symm (newline_ne_text hmarked qs a _)
      · obtain ⟨hab, hrest⟩ := h a b _ _ heq
        rw [show a = b from hab, ih hrest]

end Pieces

end Text
