import Mathlib.Data.List.DropRight
import Mathlib.Data.Nat.Notation

/-!
# Text files line by line

Texts are lists of characters. `Text.readLines` reads a text as a text file is read in Python: line
ends of other systems become `'\n'`, and every line keeps its `'\n'`; only the last may lack one.
`Text.strip` removes white space on both sides, in Python's sense of white space.

A text that is written line by line, `Text.unlines`, is read back line by line, and so is anything
that is appended to it. `Text.Trimmed` lines survive stripping.
-/

/-- A text. -/
abbrev Text := List Char

namespace Text

/-! ## Reading -/

/-- Every line end becomes `'\n'`. -/
def universalNewlines : Text → Text
  | '\r' :: '\n' :: cs => '\n' :: universalNewlines cs
  | '\r' :: cs => '\n' :: universalNewlines cs
  | c :: cs => c :: universalNewlines cs
  | [] => []

/-- The lines of a text, each with its `'\n'`. -/
def splitLines : Text → List Text
  | [] => []
  | c :: cs =>
    if c = '\n' then [c] :: splitLines cs
    else match splitLines cs with
      | [] => [[c]]
      | l :: ls => (c :: l) :: ls

/-- `readlines` of a file opened in text mode. -/
def readLines (file : Text) : List Text := splitLines (universalNewlines file)

/-- Whether Python takes the character for white space. -/
def isSpace (c : Char) : Bool :=
  let n := c.toNat
  (9 ≤ n && n ≤ 13) || (28 ≤ n && n ≤ 32) || n == 0x85 || n == 0xa0 || n == 0x1680 ||
    (0x2000 ≤ n && n ≤ 0x200a) || n == 0x2028 || n == 0x2029 || n == 0x202f || n == 0x205f ||
    n == 0x3000

-- Stated for the list and the option: `Char` is finite, and other instances run through all of it.
instance (l : List Char) : Decidable (∀ c ∈ l, isSpace c = false) := List.decidableBAll ..

instance (o : Option Char) : Decidable (∀ c ∈ o, isSpace c = false) := o.decidableForallMem

/-- `strip`. -/
def strip (line : Text) : Text := (line.dropWhile isSpace).rdropWhile isSpace

/-- `startswith`. -/
def StartsWith (line start : Text) : Prop := start <+: line

instance (line start : Text) : Decidable (line.StartsWith start) :=
  inferInstanceAs (Decidable (_ <+: _))

/-! ## Writing -/

/-- Lines, each followed by `'\n'`. -/
def unlines (ls : List Text) : Text := ls.flatMap (· ++ ['\n'])

@[simp] theorem unlines_nil : unlines [] = [] := rfl

@[simp] theorem unlines_cons (l : Text) (ls : List Text) :
    unlines (l :: ls) = l ++ '\n' :: unlines ls := by
  simp [unlines]

@[simp] theorem unlines_append (ls ls' : List Text) :
    unlines (ls ++ ls') = unlines ls ++ unlines ls' := by
  simp [unlines]

/-- The line contains no character that ends a line. -/
structure OneLine (l : Text) : Prop where
  newline : '\n' ∉ l
  carriageReturn : '\r' ∉ l

/-- Neither the first nor the last character is white space. -/
structure Trimmed (l : Text) : Prop where
  head : ∀ c ∈ l.head?, isSpace c = false
  last : ∀ c ∈ l.getLast?, isSpace c = false

instance (l : Text) : Decidable (OneLine l) :=
  decidable_of_iff ('\n' ∉ l ∧ '\r' ∉ l) ⟨fun h ↦ ⟨h.1, h.2⟩, fun h ↦ ⟨h.1, h.2⟩⟩

theorem OneLine.append {l l' : Text} (h : OneLine l) (h' : OneLine l') : OneLine (l ++ l') where
  newline hmem := (List.mem_append.mp hmem).elim h.newline h'.newline
  carriageReturn hmem := (List.mem_append.mp hmem).elim h.carriageReturn h'.carriageReturn

theorem Trimmed.prepend {l l' : Text} (h : ∀ c ∈ l.head?, isSpace c = false) (h' : Trimmed l')
    (hne : l' ≠ []) : Trimmed (l ++ l') where
  head c hc := by
    rw [List.head?_append, Option.mem_def, Option.or_eq_some_iff] at hc
    exact hc.elim (h c) fun hc ↦ h'.head c hc.2
  last c hc := by
    rw [List.getLast?_append_of_ne_nil _ hne] at hc
    exact h'.last c hc

/-- The text contains no white space. -/
def Solid (l : Text) : Prop := ∀ c ∈ l, isSpace c = false

instance (l : Text) : Decidable (Solid l) := inferInstanceAs (Decidable (∀ c ∈ l, _))

namespace Solid

variable {l l' : Text}

theorem oneLine (h : Solid l) : OneLine l where
  newline hmem := absurd (h _ hmem) (by decide)
  carriageReturn hmem := absurd (h _ hmem) (by decide)

theorem trimmed (h : Solid l) : Trimmed l where
  head c hc := h c (List.mem_of_head? hc)
  last c hc := h c (List.mem_of_getLast? hc)

theorem append (h : Solid l) (h' : Solid l') : Solid (l ++ l') :=
  fun c hc ↦ (List.mem_append.mp hc).elim (h c) (h' c)

end Solid

/-! ## What is written is read back -/

theorem universalNewlines_eq_self {file : Text} (h : '\r' ∉ file) : universalNewlines file = file := by
  induction file with
  | nil => rfl
  | cons c cs ih =>
    have hc : c ≠ '\r' := fun heq ↦ h (heq ▸ List.mem_cons_self)
    rw [universalNewlines.eq_3 _ _ (by grind) (by grind), ih fun hcs ↦ h (List.mem_cons_of_mem _ hcs)]

theorem splitLines_append {l : Text} (h : '\n' ∉ l) (rest : Text) :
    splitLines (l ++ '\n' :: rest) = (l ++ ['\n']) :: splitLines rest := by
  induction l with
  | nil => simp [splitLines]
  | cons c cs ih =>
    have hc : c ≠ '\n' := fun heq ↦ h (heq ▸ List.mem_cons_self)
    rw [List.cons_append, splitLines, if_neg hc, ih fun hcs ↦ h (List.mem_cons_of_mem _ hcs)]
    rfl

theorem splitLines_unlines {ls : List Text} (h : ∀ l ∈ ls, '\n' ∉ l) :
    splitLines (unlines ls) = ls.map (· ++ ['\n']) := by
  induction ls with
  | nil => rfl
  | cons l ls ih =>
    rw [unlines_cons, splitLines_append (h l List.mem_cons_self),
      ih fun l' hl' ↦ h l' (List.mem_cons_of_mem _ hl'), List.map_cons]

/-- Lines that are written are read back. -/
theorem readLines_unlines {ls : List Text} (h : ∀ l ∈ ls, OneLine l) :
    readLines (unlines ls) = ls.map (· ++ ['\n']) := by
  have hreturn : '\r' ∉ unlines ls := by
    simp only [unlines, List.mem_flatMap, List.mem_append, List.mem_singleton, not_exists, not_and,
      not_or]
    exact fun l hl ↦ ⟨(h l hl).carriageReturn, by decide⟩
  rw [readLines, universalNewlines_eq_self hreturn, splitLines_unlines fun l hl ↦ (h l hl).newline]

/-- Whatever a text contains, the `'\n'` after it ends a line, and the rest starts on a new one. -/
theorem universalNewlines_append (l : Text) :
    ∃ l', ∀ rest, universalNewlines (l ++ '\n' :: rest) = l' ++ '\n' :: universalNewlines rest := by
  induction l using universalNewlines.induct with
  | case1 cs ih =>
    obtain ⟨l', hl'⟩ := ih
    exact ⟨'\n' :: l', fun rest ↦ congrArg (List.cons '\n') (hl' rest)⟩
  | case2 cs hcs ih =>
    rcases cs with _ | ⟨c, cs⟩
    · exact ⟨[], fun rest ↦ rfl⟩
    · obtain ⟨l', hl'⟩ := ih
      have hc : c ≠ '\n' := fun heq ↦ hcs cs (heq ▸ rfl)
      refine ⟨'\n' :: l', fun rest ↦ ?_⟩
      rw [List.cons_append, List.cons_append, universalNewlines.eq_2 _ (by grind),
        ← List.cons_append, hl']
      rfl
  | case3 c cs h₁ h₂ ih =>
    obtain ⟨l', hl'⟩ := ih
    refine ⟨c :: l', fun rest ↦ ?_⟩
    rw [List.cons_append, universalNewlines.eq_3 _ _ (by grind) (by grind), hl']
    rfl
  | case4 => exact ⟨[], fun rest ↦ rfl⟩

theorem splitLines_append_newline (l rest : Text) :
    splitLines (l ++ '\n' :: rest) = splitLines (l ++ ['\n']) ++ splitLines rest := by
  induction l with
  | nil => simp [splitLines]
  | cons c cs ih =>
    by_cases hc : c = '\n'
    · rw [List.cons_append, List.cons_append, splitLines, splitLines, if_pos hc, if_pos hc, ih,
        List.cons_append]
    · have hne : splitLines (cs ++ ['\n']) ≠ [] := by
        cases cs with
        | nil => simp [splitLines]
        | cons d ds =>
          rw [List.cons_append, splitLines]
          split
          · simp
          · split <;> simp
      obtain ⟨m, ms, hms⟩ := List.exists_cons_of_ne_nil hne
      rw [List.cons_append, List.cons_append, splitLines, splitLines, if_neg hc, if_neg hc, ih, hms]
      rfl

theorem readLines_append (l rest : Text) :
    readLines (l ++ '\n' :: rest) = readLines (l ++ ['\n']) ++ readLines rest := by
  obtain ⟨l', hl'⟩ := universalNewlines_append l
  have hnil : universalNewlines (l ++ ['\n']) = l' ++ ['\n'] := hl' []
  rw [readLines, readLines, readLines, hl', hnil, splitLines_append_newline]

/-- Texts that are written one after the other, each with a `'\n'`, are read one after the other. -/
theorem readLines_unlines_append (ls : List Text) (rest : Text) :
    readLines (unlines ls ++ rest) = ls.flatMap (fun l ↦ readLines (l ++ ['\n'])) ++ readLines rest := by
  induction ls with
  | nil => rfl
  | cons l ls ih =>
    rw [unlines_cons, List.append_assoc, List.cons_append, readLines_append, ih, List.flatMap_cons,
      List.append_assoc]

theorem flatMap_readLines {ls : List Text} (h : ∀ l ∈ ls, OneLine l) :
    ls.flatMap (fun l ↦ readLines (l ++ ['\n'])) = ls.map (· ++ ['\n']) := by
  have hread := readLines_unlines_append ls []
  rw [List.append_nil, readLines_unlines h] at hread
  exact ((hread.trans (List.append_nil _))).symm

/-- A trimmed line is read back without its line end. -/
theorem strip_append_newline {l : Text} (h : Trimmed l) : strip (l ++ ['\n']) = l := by
  rcases l with _ | ⟨c, cs⟩
  · rfl
  · have hc : isSpace c = false := h.head c rfl
    have hlast : ∀ hne, ¬isSpace ((c :: cs).getLast hne) = true := by
      intro hne
      rw [h.last _ (List.getLast?_eq_some_getLast hne)]
      simp
    rw [strip, List.cons_append, List.dropWhile_cons_of_neg (by simp [hc]), ← List.cons_append,
      List.rdropWhile_concat_pos _ _ _ rfl]
    exact List.rdropWhile_eq_self_iff.mpr hlast

end Text
