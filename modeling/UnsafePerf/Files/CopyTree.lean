import UnsafePerf.Files.FileTree

/-!
# Removing and copying whole directories

Python's `shutil.rmtree`, `Path.mkdir(parents=True, exist_ok=True)`, `shutil.copy2` and
`shutil.copytree` on file trees; `none` is an exception, and then nothing has changed. A directory is
not copied into itself.

What an operation leaves alone is said with `FileTree.SameBelow`: two trees agree at a path and
everywhere below it. An operation can change what is below a path only if one of the paths that it is
given is comparable with it: `Path.Apart`.
-/

namespace Files

namespace Path

/-- Neither path is above the other. -/
def Apart (p q : Path) : Prop := ¬p <+: q ∧ ¬q <+: p

instance (p q : Path) : Decidable (p.Apart q) := inferInstanceAs (Decidable (_ ∧ _))

namespace Apart

variable {p q r : Path}

theorem symm (h : p.Apart q) : q.Apart p := ⟨h.2, h.1⟩

theorem not_prefix_append (h : p.Apart q) (r : Path) : ¬p <+: q ++ r := fun hpre ↦
  (List.prefix_or_prefix_of_prefix hpre (List.prefix_append q r)).elim h.1 h.2

/-- What is below a path is apart from what the path is apart from. -/
theorem below (h : p.Apart q) (hr : p <+: r) : r.Apart q :=
  ⟨fun hrq ↦ h.1 (hr.trans hrq), fun hqr ↦
    (List.prefix_or_prefix_of_prefix hr hqr).elim h.1 h.2⟩

theorem ne_append (h : p.Apart q) (r : Path) : q ++ r ≠ p := fun heq ↦
  h.2 (heq ▸ List.prefix_append q r)

/-- Different entries of a directory. -/
theorem of_names {name name' : Text} (h : name ≠ name') (d p q : Path) :
    Apart (d ++ name :: p) (d ++ name' :: q) := by
  constructor
  · intro hpre
    exact h (List.cons_prefix_cons.mp ((List.prefix_append_right_inj d).mp hpre)).1
  · intro hpre
    exact h (List.cons_prefix_cons.mp ((List.prefix_append_right_inj d).mp hpre)).1.symm

end Apart

end Path

namespace FileTree

variable {κ : Type} {fs fs' fs'' : FileTree κ} {p q src dst : Path}

/-! ## Agreement below a path -/

/-- The trees agree at a path and below it. -/
def SameBelow (fs fs' : FileTree κ) (p : Path) : Prop := ∀ q, fs'.node (p ++ q) = fs.node (p ++ q)

namespace SameBelow

theorem refl (fs : FileTree κ) (p : Path) : fs.SameBelow fs p := fun _ ↦ rfl

theorem trans (h : fs.SameBelow fs' p) (h' : fs'.SameBelow fs'' p) : fs.SameBelow fs'' p :=
  fun q ↦ (h' q).trans (h q)

theorem mono (h : fs.SameBelow fs' p) (hpq : p <+: q) : fs.SameBelow fs' q := by
  obtain ⟨r, rfl⟩ := hpq
  intro s
  rw [List.append_assoc]
  exact h (r ++ s)

theorem node (h : fs.SameBelow fs' p) : fs'.node p = fs.node p := by
  simpa using h []

theorem pathExists_iff (h : fs.SameBelow fs' p) (hpq : p <+: q) :
    fs'.PathExists q ↔ fs.PathExists q := by
  rw [PathExists, PathExists, (h.mono hpq).node]

theorem isDir_iff (h : fs.SameBelow fs' p) (hpq : p <+: q) : fs'.IsDir q ↔ fs.IsDir q := by
  rw [IsDir, IsDir, (h.mono hpq).node]

end SameBelow

/-! ## `Path.mkdir` -/

/-- `Path.mkdir(parents=True, exist_ok=True)`. -/
def mkdir (fs : FileTree κ) (p : Path) : Option (FileTree κ) :=
  if h : fs.Unobstructed p then some (fs.makeDirs p h) else none

theorem isDir_of_mkdir (h : fs.mkdir p = some fs') : fs'.IsDir p := by
  rw [mkdir] at h
  split at h
  · rw [← Option.some_inj.mp h]
    exact if_pos (List.prefix_refl p)
  · exact absurd h (by simp)

theorem sameBelow_of_mkdir (h : fs.mkdir q = some fs') (hp : ¬p <+: q) : fs.SameBelow fs' p := by
  rw [mkdir] at h
  split at h
  · rw [← Option.some_inj.mp h]
    exact fun r ↦ if_neg fun hpre ↦ hp ((List.prefix_append p r).trans hpre)
  · exact absurd h (by simp)

/-- Where nothing was, the new directory is empty. -/
theorem node_of_mkdir (h : fs.mkdir p = some fs') (hp : ¬fs.PathExists p) (hq : q ≠ []) :
    fs'.node (p ++ q) = none := by
  have hnone : fs.node (p ++ q) = none := by
    refine node_eq_none_iff.mpr fun hex ↦ ?_
    exact hp (isDir_above (List.prefix_append p q) (by simp [hq]) hex).pathExists
  rw [mkdir] at h
  split at h
  · rw [← Option.some_inj.mp h]
    refine (if_neg fun hpre ↦ hq ?_).trans hnone
    have hlength := hpre.length_le
    rw [List.length_append] at hlength
    exact List.length_eq_zero_iff.mp (by omega)
  · exact absurd h (by simp)

/-! ## `shutil.rmtree` -/

/-- Remove what is at the path and below it. -/
def removeTree (fs : FileTree κ) (p : Path) (h : p ≠ []) : FileTree κ where
  node q := if p <+: q then none else fs.node q
  root := (if_neg fun hpre ↦ h (List.prefix_nil.mp hpre)).trans fs.root
  parent q name hq := by
    have hname : ¬p <+: q ++ [name] := fun hpre ↦ hq (if_pos hpre)
    rw [if_neg hname] at hq
    exact (if_neg fun hpre ↦ hname (hpre.trans (List.prefix_append q [name]))).trans
      (fs.parent q name hq)

/-- `shutil.rmtree`. -/
def rmtree (fs : FileTree κ) (p : Path) : Option (FileTree κ) :=
  if h : p ≠ [] then if fs.IsDir p then some (fs.removeTree p h) else none else none

theorem not_pathExists_of_rmtree (h : fs.rmtree p = some fs') : ¬fs'.PathExists p := by
  rw [rmtree] at h
  split at h
  · split at h
    · rw [← Option.some_inj.mp h]
      exact node_eq_none_iff.mp (if_pos (List.prefix_refl p))
    · exact absurd h (by simp)
  · exact absurd h (by simp)

theorem sameBelow_of_rmtree (h : fs.rmtree q = some fs') (hq : q.Apart p) : fs.SameBelow fs' p := by
  rw [rmtree] at h
  split at h
  · split at h
    · rw [← Option.some_inj.mp h]
      exact fun r ↦ if_neg (hq.not_prefix_append r)
    · exact absurd h (by simp)
  · exact absurd h (by simp)

/-! ## `shutil.copy2` -/

theorem apart_place (h : dst.Apart p) : (fs.place src dst).Apart p := by
  rw [place]
  split
  · exact h.below (Path.prefix_join dst _)
  · exact h

/-- `shutil.copy2`. -/
def copy2 (fs : FileTree κ) (src dst : Path) : Option (FileTree κ) :=
  match fs.node src with
  | some (.file content) =>
    if h : src ≠ fs.place src dst ∧ fs.Writable (fs.place src dst) then
      some (fs.write (fs.place src dst) content h.2)
    else none
  | _ => none

/-- What `shutil.copy2` does where the new path is not a directory. -/
theorem node_of_copy2 (h : fs.copy2 src dst = some fs') (hdst : ¬fs.IsDir dst) :
    fs.IsFile src ∧ ∀ q, fs'.node q = if q = dst then fs.node src else fs.node q := by
  have hplace : fs.place src dst = dst := if_neg hdst
  rw [copy2] at h
  split at h
  · next content hsrc =>
    split at h
    · refine ⟨⟨content, hsrc⟩, fun q ↦ ?_⟩
      rw [← Option.some_inj.mp h, hsrc]
      change (if q = fs.place src dst then some (Node.file content) else fs.node q) = _
      rw [hplace]
    · exact absurd h (by simp)
  · exact absurd h (by simp)

theorem sameBelow_of_copy2 (h : fs.copy2 src dst = some fs') (hdst : dst.Apart p) :
    fs.SameBelow fs' p := by
  rw [copy2] at h
  split at h
  · split at h
    · rw [← Option.some_inj.mp h]
      exact fun r ↦ if_neg ((apart_place hdst).ne_append r)
    · exact absurd h (by simp)
  · exact absurd h (by simp)

/-! ## `shutil.copytree` -/

/-- Copy a directory with all it contains; what is missing above its new place is made. -/
def copyDir (fs : FileTree κ) (src dst : Path) (h : fs.Placeable src dst) : FileTree κ where
  node q :=
    if dst <+: q then fs.node (src ++ q.drop dst.length)
    else if q <+: dst then some .dir
    else fs.node q
  root := by
    have hdst : ¬dst <+: [] := fun hdst ↦ h.free (List.prefix_nil.mp hdst ▸ fs.isDir_root.pathExists)
    rw [if_neg hdst, if_pos List.nil_prefix]
  parent q name hq := by
    by_cases hdst : dst <+: q
    · -- inside the copy
      obtain ⟨r, rfl⟩ := hdst
      rw [if_pos ((List.prefix_append dst r).trans (List.prefix_append _ _)), List.append_assoc,
        List.drop_left, ← List.append_assoc] at hq
      rw [if_pos (List.prefix_append dst r), List.drop_left]
      exact fs.parent _ _ hq
    rw [if_neg hdst]
    by_cases hname : dst <+: q ++ [name]
    · -- the copy itself
      have heq : dst = q ++ [name] := (List.prefix_concat_iff.mp hname).resolve_right hdst
      exact if_pos (heq ▸ List.prefix_append q [name])
    · rw [if_neg hname] at hq
      by_cases hqdst : q <+: dst
      · exact if_pos hqdst
      · have hnot : ¬q ++ [name] <+: dst := fun h' ↦ hqdst ((List.prefix_append q [name]).trans h')
        rw [if_neg hnot] at hq
        exact (if_neg hqdst).trans (fs.parent q name hq)

/-- `shutil.copytree`. -/
def copytree (fs : FileTree κ) (src dst : Path) : Option (FileTree κ) :=
  if h : fs.Placeable src dst then some (fs.copyDir src dst h) else none

theorem node_of_copytree (h : fs.copytree src dst = some fs') (q : Path) :
    fs'.node q
      = if dst <+: q then fs.node (src ++ q.drop dst.length)
        else if q <+: dst then some .dir
        else fs.node q := by
  rw [copytree] at h
  split at h
  · rw [← Option.some_inj.mp h]
    rfl
  · exact absurd h (by simp)

theorem sameBelow_of_copytree (h : fs.copytree src dst = some fs') (hdst : dst.Apart p) :
    fs.SameBelow fs' p := fun r ↦ by
  rw [node_of_copytree h, if_neg (hdst.not_prefix_append r), if_neg fun hpre ↦
    hdst.2 ((List.prefix_append p r).trans hpre)]

/-! ## `shutil.move` -/

/-- A path that is apart from both ends of a move does not see it. -/
theorem Relocated.sameBelow (h : fs.Relocated fs' src dst) (hsrc : src.Apart p)
    (hdst : dst.Apart p) : fs.SameBelow fs' p := by
  intro r
  rcases h with ⟨-, -, hnode⟩ | ⟨-, hnode⟩
  · rw [hnode, if_neg (hdst.ne_append r), if_neg (hsrc.ne_append r)]
  · rw [hnode, if_neg (hdst.not_prefix_append r), if_neg (hsrc.not_prefix_append r),
      if_neg fun hpre ↦ hdst.2 ((List.prefix_append p r).trans hpre)]

theorem sameBelow_of_move (h : fs.move src dst = some fs') (hsrc : src.Apart p)
    (hdst : dst.Apart p) : fs.SameBelow fs' p := by
  by_cases hmove : fs.Movable src dst
  · obtain ⟨moved, heq, hrel⟩ := hmove.exists_move
    rw [← Option.some_inj.mp (heq.symm.trans h)]
    exact hrel.sameBelow hsrc (apart_place hdst)
  · have hsame := move_getD_of_not_movable hmove
    rw [h, Option.getD_some] at hsame
    rw [hsame]
    exact SameBelow.refl fs p

end FileTree

end Files
