import UnsafePerf.Files.FileTree

/-!
# Paths as texts

A process that is given a path as a text looks it up from its working directory: `Path.resolve`. The
text of an absolute path leads to the same place from everywhere, `Path.resolve_toText`. The text
that `os.path.relpath` makes climbs from its start to the deepest directory above both paths and
descends from there. Taken from another directory it climbs as many levels, so it leads to the path
again if and only if that many levels up stands the same directory: `Path.resolve_relpath_eq_iff`.
-/

namespace Files.Path

/-- Looking a component up in a directory; the root is its own parent. -/
def enter (p : Path) (name : Text) : Path :=
  if name = [] ∨ name = ".".toList then p
  else if name = "..".toList then p.dropLast
  else p ++ [name]

/-- Where a text leads from a directory. -/
def resolve (p : Path) (text : Text) : Path :=
  (text.splitOn '/').foldl enter (if text.head? = some '/' then [] else p)

/-- `str` of a path. -/
def toText (p : Path) : Text := '/' :: ['/'].intercalate p

/-- The deepest directory above two paths, or the path that is above the other. -/
def common : Path → Path → Path
  | name :: p, name' :: q => if name = name' then name :: common p q else []
  | _, _ => []

/-- The levels from a directory up to the deepest directory that is also above a path. -/
def levelsUp (path start : Path) : ℕ := start.length - (common path start).length

/-- `os.path.relpath`. -/
def relpath (path start : Path) : Text :=
  let relList := List.replicate (levelsUp path start) "..".toList ++
    path.drop (common path start).length
  if relList = [] then ".".toList else ['/'].intercalate relList

/-- The directory some levels up. -/
def up (p : Path) (levels : ℕ) : Path := p.take (p.length - levels)

/-- The component names an entry of a directory. -/
structure IsName (name : Text) : Prop where
  ne_nil : name ≠ []
  ne_dot : name ≠ ".".toList
  ne_dotdot : name ≠ "..".toList
  no_slash : '/' ∉ name

instance (name : Text) : Decidable (IsName name) :=
  decidable_of_iff (name ≠ [] ∧ name ≠ ".".toList ∧ name ≠ "..".toList ∧ '/' ∉ name)
    ⟨fun ⟨h, h', h'', h'''⟩ ↦ ⟨h, h', h'', h'''⟩, fun ⟨h, h', h'', h'''⟩ ↦ ⟨h, h', h'', h'''⟩⟩

/-- All components name entries, as in what Python's `Path.resolve` returns. -/
def Normal (p : Path) : Prop := ∀ name ∈ p, IsName name

instance (p : Path) : Decidable p.Normal := inferInstanceAs (Decidable (∀ name ∈ p, IsName name))

variable {p q path : Path}

/-! ## Lookup -/

theorem enter_of_isName {name : Text} (h : IsName name) (p : Path) : enter p name = p ++ [name] := by
  rw [enter, if_neg (not_or.mpr ⟨h.ne_nil, h.ne_dot⟩), if_neg h.ne_dotdot]

@[simp] theorem enter_nil (p : Path) : enter p [] = p := if_pos (Or.inl rfl)

@[simp] theorem enter_dot (p : Path) : enter p ".".toList = p := if_pos (Or.inr rfl)

theorem enter_dotdot (p : Path) : enter p "..".toList = p.dropLast := by
  rw [enter, if_neg (by decide), if_pos rfl]

theorem foldl_enter_of_normal (h : q.Normal) (p : Path) : q.foldl enter p = p ++ q := by
  induction q generalizing p with
  | nil => rw [List.foldl_nil, List.append_nil]
  | cons name q ih =>
    have hname := h name List.mem_cons_self
    have hq : Normal q := fun name' hmem ↦ h name' (List.mem_cons_of_mem _ hmem)
    rw [List.foldl_cons, enter_of_isName hname, ih hq, List.append_assoc, List.singleton_append]

@[simp] theorem up_zero (p : Path) : p.up 0 = p := by
  rw [up, Nat.sub_zero, List.take_length]

theorem up_dropLast (p : Path) (levels : ℕ) : up p.dropLast levels = p.up (levels + 1) := by
  rw [up, up, List.length_dropLast, List.dropLast_eq_take, List.take_take]
  congr 1
  omega

theorem foldl_enter_dotdot (p : Path) (levels : ℕ) :
    (List.replicate levels "..".toList).foldl enter p = p.up levels := by
  induction levels generalizing p with
  | zero => rw [List.replicate_zero, List.foldl_nil, up_zero]
  | succ levels ih =>
    rw [List.replicate_succ, List.foldl_cons, enter_dotdot, ih, up_dropLast]

/-- From the components of a text to where it leads. -/
theorem resolve_intercalate {ls : List Text} (hls : ls ≠ []) (hslash : ∀ l ∈ ls, '/' ∉ l)
    (hhead : ls.head? ≠ some []) (p : Path) :
    resolve p (['/'].intercalate ls) = ls.foldl enter p := by
  rw [resolve, List.splitOn_intercalate _ hslash hls, if_neg]
  obtain ⟨l, ls, rfl⟩ := List.exists_cons_of_ne_nil hls
  obtain ⟨c, l, rfl⟩ := List.exists_cons_of_ne_nil fun hnil ↦ hhead (congrArg some hnil)
  have hc : '/' ≠ c := List.ne_of_not_mem_cons (hslash _ List.mem_cons_self)
  cases ls <;> simpa [List.intercalate] using hc.symm

/-- An absolute path is the same from every directory. -/
theorem resolve_toText (h : q.Normal) (p : Path) : resolve p q.toText = q := by
  have hsplit : q.toText.splitOn '/' = [] :: (['/'].intercalate q).splitOn '/' :=
    List.splitOn_append_cons_self [] _
  -- the first slash makes an empty component, which stays at the root
  rw [resolve, hsplit, List.foldl_cons, enter_nil]
  change ((['/'].intercalate q).splitOn '/').foldl enter [] = q
  by_cases hq : q = []
  · subst hq
    rfl
  · rw [List.splitOn_intercalate _ (fun name hmem ↦ (h name hmem).no_slash) hq,
      foldl_enter_of_normal h, List.nil_append]

/-! ## Relative paths -/

theorem common_prefix_left : ∀ p q : Path, common p q <+: p
  | [], q => by simp [common]
  | _ :: _, [] => by simp [common]
  | name :: p, name' :: q => by
    rw [common]
    split
    · exact (List.prefix_cons_inj name).mpr (common_prefix_left p q)
    · exact List.nil_prefix

theorem common_append_drop (p q : Path) : common p q ++ p.drop (common p q).length = p := by
  conv_lhs => lhs; rw [List.prefix_iff_eq_take.mp (common_prefix_left p q)]
  exact List.take_append_drop _ p

theorem common_prefix_right : ∀ p q : Path, common p q <+: q
  | [], q => by simp [common]
  | _ :: _, [] => by simp [common]
  | name :: p, name' :: q => by
    rw [common]
    split
    next heq => exact heq ▸ (List.prefix_cons_inj name).mpr (common_prefix_right p q)
    next => exact List.nil_prefix

/-- A relative path climbs from wherever it is taken. -/
theorem resolve_relpath (h : path.Normal) (start p : Path) :
    resolve p (relpath path start) =
      p.up (levelsUp path start) ++ path.drop (common path start).length := by
  have hrest : Normal (path.drop (common path start).length) :=
    fun name hmem ↦ h name (List.mem_of_mem_drop hmem)
  rw [← foldl_enter_of_normal hrest, ← foldl_enter_dotdot, ← List.foldl_append, relpath]
  -- neither the climb nor the descent has an empty component, so the text is not absolute
  generalize hlist : List.replicate (levelsUp path start) "..".toList ++
    path.drop (common path start).length = relList
  have hnames : ∀ name ∈ relList, name ≠ [] ∧ '/' ∉ name := by
    intro name hmem
    rw [← hlist, List.mem_append] at hmem
    rcases hmem with hup | hdown
    · rw [List.eq_of_mem_replicate hup]
      decide
    · exact ⟨(hrest name hdown).ne_nil, (hrest name hdown).no_slash⟩
  split
  next hnil =>
    rw [hnil]
    exact enter_dot p
  next hne =>
    refine resolve_intercalate hne (fun name hmem ↦ (hnames name hmem).2) (fun hhead ↦ ?_) p
    exact (hnames [] (List.mem_of_head? hhead)).1 rfl

/-- Where a relative path leads to the path again. -/
theorem resolve_relpath_eq_iff (h : path.Normal) (start p : Path) :
    resolve p (relpath path start) = path ↔ p.up (levelsUp path start) = common path start := by
  rw [resolve_relpath h]
  conv_lhs => rhs; rw [← common_append_drop path start]
  exact List.append_left_inj _

theorem resolve_relpath_self (h : path.Normal) (start : Path) :
    resolve start (relpath path start) = path := by
  rw [resolve_relpath_eq_iff h, up, levelsUp]
  have hstart := common_prefix_right path start
  rw [Nat.sub_sub_self hstart.length_le]
  exact (List.prefix_iff_eq_take.mp hstart).symm

end Files.Path
